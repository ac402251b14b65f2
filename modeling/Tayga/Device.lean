import Tayga.DataRuns
import Tayga.IdentLaw
import Tayga.TransportLaw

/-!
# Devices

What goes out for a packet is up to the kernel behind the TUN device, which is known by its promises (`Offloads`): it
completes checksums, and cuts aggregates into segments.  Segments have the sequence number, the flags and the lengths of
their place, and the identifications count up where DF is clear.  The identifications of segments with DF set are left
to the device, and so is which of the two zeros of one's complement the checksum of TCP is; packets that differ in these
only are `Alike`.
-/

namespace Tayga

open Program OnesComplement Cut

/-- A device: the packets that go out for a packet and the virtio header it is handed over with. -/
abbrev Device := Option VnetHdr → List Byte → List (List Byte)

/-! ### Segments -/

/-- The header with another identification, and the checksum of that. -/
def Ip4.renumbered (h : Ip4) (ident : BitVec 16) : Ip4 :=
  let h := { h with ident := ident, cksum := 0 }
  { h with cksum := ~~~ofSum (sumWords h.toBytes) }

/-- The IPv4 or IPv6 header of a segment of `len` bytes, from the header of the aggregate. -/
def netSegment (packet : List Byte) (ident : BitVec 16) (len : Nat) : List Byte :=
  if version packet = 4 then
    (Ip4.renumbered { Ip4.ofBytes packet with length := BitVec.ofNat 16 len } ident).toBytes
  else { Ip6.ofBytes packet with payloadLength := BitVec.ofNat 16 (len - 40) }.toBytes

/-- The checksum of a segment that is `l4` with a checksum of zero: `seed` holds the sum of the pseudo-header of `total`
bytes. -/
def segmentSum (seed : BitVec 16) (total : Nat) (l4 : List Byte) : BitVec 16 :=
  ~~~ofSum (seed.toNat + (~~~BitVec.ofNat 16 total).toNat + l4.length + sumWords l4)

/-- A TCP segment: FIN and PSH are for the last one, CWR is for the first one. -/
def tcpSegment (h : TcpHdr) (total : Nat) (s : Piece Byte) : List Byte :=
  let flags := if s.last then h.flags else h.flags &&& ~~~(tcpFlagFin ||| tcpFlagPsh)
  let t := { h with
    seq := h.seq + BitVec.ofNat 32 s.offset
    flags := if s.offset = 0 then flags else flags &&& ~~~tcpFlagCwr
    cksum := 0 }
  { t with cksum := segmentSum h.cksum total (t.toBytes ++ s.data) }.toBytes ++ s.data

/-- A UDP datagram cut from an aggregate. -/
def udpSegment (h : UdpHdr) (total : Nat) (s : Piece Byte) : List Byte :=
  let u := { h with length := BitVec.ofNat 16 (8 + s.data.length), cksum := 0 }
  { u with cksum := nonzeroCksum (segmentSum h.cksum total (u.toBytes ++ s.data)) }.toBytes ++ s.data

/-- The bytes in front of the payload. -/
def headersLen (packet : List Byte) : Nat := netLen packet + transportLen packet

/-- The segment of an aggregate. -/
def wireSegment (packet : List Byte) (ident : BitVec 16) (s : Piece Byte) : List Byte :=
  let l4 := (packet.take (headersLen packet)).drop (netLen packet)
  netSegment packet ident (headersLen packet + s.data.length) ++
    if transportProto packet = 17 then udpSegment (UdpHdr.ofBytes l4) (packet.length - netLen packet) s
    else tcpSegment (TcpHdr.ofBytes l4) (packet.length - netLen packet) s

/-- Segments one after the other, with identifications `step` apart. -/
def numberedSegments (segment : BitVec 16 → Piece Byte → List Byte) (step : BitVec 16) :
    BitVec 16 → List (Piece Byte) → List (List Byte)
  | _, [] => []
  | ident, s :: rest => segment ident s :: numberedSegments segment step (ident + step) rest

/-- The segments of an aggregate, `n` bytes each.  With DF set the identifications are `step` apart. -/
def cutInto (step : BitVec 16) (n : Nat) (packet : List Byte) : List (List Byte) :=
  numberedSegments (wireSegment packet) (if IsDf0 packet then 1 else step) (ident packet)
    (Cut.cut n 0 (packet.drop (headersLen packet)))

/-! ### Checksums -/

/-- The checksum that is left to the device is inside the packet. -/
def ChecksumFits (v : VnetHdr) (packet : List Byte) : Prop :=
  v.needsCsum → v.csumStart.toNat + v.csumOffset.toNat + 2 ≤ packet.length

instance (v : VnetHdr) (packet : List Byte) : Decidable (ChecksumFits v packet) := inferInstanceAs (Decidable (_ → _))

/-- The packet with its checksum: the field holds the sum of the pseudo-header. -/
def completed (v : VnetHdr) (packet : List Byte) : List Byte :=
  if v.needsCsum then
    let cksum := ~~~ofSum (sumWords (packet.drop v.csumStart.toNat))
    put packet (v.csumStart.toNat + v.csumOffset.toNat) (be16 (if v.csumOffset = 6 then nonzeroCksum cksum else cksum))
  else packet

/-- The packet with all ones for a checksum of TCP that is zero. -/
def onesCksum (packet : List Byte) : List Byte :=
  if transportProto packet = 6 ∧ netLen packet + 18 ≤ packet.length ∧ getBe16 packet (netLen packet + 16) = 0 then
    put packet (netLen packet + 16) (be16 0xffff)
  else packet

/-- The IPv4 packet with another identification. -/
def renumber (packet : List Byte) (ident : BitVec 16) : List Byte :=
  ((Ip4.ofBytes packet).renumbered ident).toBytes ++ packet.drop 20

/-! ### The promises -/

/-- `Alike a b`: the packet `a` is `b`, but for the identification if DF is set and for the zero that the checksum of
TCP is. -/
inductive Alike : List Byte → List Byte → Prop where
  | refl (packet : List Byte) : Alike packet packet
  | ident {a b : List Byte} (h : Alike a b) (hversion : version a = 4) (hdf : ¬IsDf0 a) (hlen : 20 ≤ a.length)
      (i : BitVec 16) : Alike (renumber a i) b
  | ones {a b : List Byte} (h : Alike a b) : Alike (onesCksum a) b

/-- The lengths in a network header without options. -/
def NetFits (packet : List Byte) : Prop :=
  if version packet = 4 then (Ip4.ofBytes packet).verIhl = 0x45 ∧ (Ip4.ofBytes packet).length.toNat = packet.length
  else version packet = 6 ∧ (Ip6.ofBytes packet).payloadLength.toNat + 40 = packet.length

/-- The type of an aggregate with these headers. -/
def gsoTypeOf (packet : List Byte) : Byte :=
  if transportProto packet = 17 then vnetGsoUdpL4 else if version packet = 4 then vnetGsoTcpv4 else vnetGsoTcpv6

/-- The packet is an aggregate of TCP or UDP, and the virtio header is right about it. -/
structure Cuttable (v : VnetHdr) (packet : List Byte) : Prop where
  hnet : NetFits packet
  hproto : transportProto packet = 6 ∧ 20 ≤ transportLen packet ∨ transportProto packet = 17
  hlen : headersLen packet ≤ packet.length
  hgso : v.gso = gsoTypeOf packet
  hsize : 0 < v.gsoSize.toNat
  hneeds : v.needsCsum
  hstart : v.csumStart.toNat = netLen packet
  hoffset : v.csumOffset = if transportProto packet = 17 then 6 else 16
  hhdrLen : v.hdrLen.toNat ≤ packet.length

/-- **What is relied on of a device.**  A packet without a virtio header goes out as it is.  One that is no aggregate
goes out with its checksum, unless the virtio header does not fit it; then it may be refused.  An aggregate goes out as
its segments. -/
structure Offloads (device : Device) : Prop where
  hplain (packet : List Byte) : device none packet = [packet]
  hwhole (v : VnetHdr) (packet : List Byte) (hgso : v.gso = vnetGsoNone) : device (some v) packet = [] ∨
    ChecksumFits v packet ∧ ∃ out, device (some v) packet = [out] ∧ Alike out (completed v packet)
  htakes (v : VnetHdr) (packet : List Byte) (hgso : v.gso = vnetGsoNone) (hfits : ChecksumFits v packet)
    (hhdrLen : v.hdrLen.toNat ≤ packet.length) : device (some v) packet ≠ []
  hcuts (v : VnetHdr) (packet : List Byte) (h : Cuttable v packet) :
    List.Forall₂ Alike (device (some v) packet) (cutInto 0 v.gsoSize.toNat packet)

/-- The kernel counts the identifications up, also with DF set, and never completes a checksum to zero. -/
def kernelDevice : Device
  | none, packet => [packet]
  | some v, packet =>
    if v.gso = vnetGsoNone then
      if ChecksumFits v packet ∧ v.hdrLen.toNat ≤ packet.length then [onesCksum (completed v packet)] else []
    else cutInto 1 v.gsoSize.toNat packet

/-- What goes out up to what is left to the device. -/
def onWire : Device
  | none, packet => [packet]
  | some v, packet =>
    if v.gso = vnetGsoNone then if ChecksumFits v packet then [completed v packet] else []
    else cutInto 0 v.gsoSize.toNat packet

/-! ### What is alike -/

section Renumber

variable {packet : List Byte} {i : BitVec 16}

theorem Ip4.ofBytes_renumber (packet : List Byte) (i : BitVec 16) :
    Ip4.ofBytes (renumber packet i) = (Ip4.ofBytes packet).renumbered i := Ip4.ofBytes_toBytes _ _

theorem length_renumber (hlen : 20 ≤ packet.length) : (renumber packet i).length = packet.length := by
  rw [renumber, List.length_append, length_ip4, List.length_drop]
  omega

theorem drop_renumber {n : Nat} (hn : 20 ≤ n) :
    (renumber packet i).drop n = packet.drop n := by
  rw [renumber, List.drop_append, List.drop_eq_nil_of_le (by rw [length_ip4]; exact hn), List.nil_append, length_ip4,
    List.drop_drop, Nat.add_sub_cancel' hn]

/-- What is read of the header besides the identification and the checksum. -/
private theorem header_renumber (packet : List Byte) (i : BitVec 16) : version (renumber packet i) = version packet ∧
    getBe16 (renumber packet i) 6 = getBe16 packet 6 ∧ getU8 (renumber packet i) 9 = getU8 packet 9 := by
  have h := Ip4.ofBytes_renumber packet i
  exact ⟨congrArg (Ip4.verIhl · >>> 4) h, congrArg Ip4.flagsOffset h, congrArg Ip4.proto h⟩

end Renumber

section OnesCksum

variable {packet : List Byte}

theorem onesCksum_eq (packet : List Byte) : onesCksum packet = packet ∨ transportProto packet = 6 ∧
    netLen packet + 18 ≤ packet.length ∧ getBe16 packet (netLen packet + 16) = 0 ∧
    onesCksum packet = put packet (netLen packet + 16) (be16 0xffff) := by
  unfold onesCksum
  split
  · next h => exact .inr ⟨h.1, h.2.1, h.2.2, rfl⟩
  · exact .inl rfl

theorem length_onesCksum : (onesCksum packet).length = packet.length := by
  obtain h | ⟨-, hlen, -, h⟩ := onesCksum_eq packet
  · rw [h]
  · rw [h, length_put_be16 (by omega)]

/-- The bytes in front of the checksum. -/
private theorem getU8_onesCksum {k : Nat} (hk : k < netLen packet + 16) :
    getU8 (onesCksum packet) k = getU8 packet k := by
  obtain h | ⟨-, hlen, -, h⟩ := onesCksum_eq packet
  · rw [h]
  · rw [h, getU8_put hk (by omega)]

/-- The bytes behind the checksum. -/
private theorem drop_onesCksum {n : Nat} (hn : netLen packet + 18 ≤ n) : (onesCksum packet).drop n = packet.drop n := by
  obtain h | ⟨-, hlen, -, h⟩ := onesCksum_eq packet
  · rw [h]
  · have htake : (packet.take (netLen packet + 16) ++ be16 0xffff).length = netLen packet + 18 := by
      rw [List.length_append, length_be16, List.length_take_of_le (by omega)]
    rw [h, put, List.drop_append, List.drop_eq_nil_of_le (by omega), List.nil_append, htake, length_be16,
      List.drop_drop, Nat.add_sub_cancel' hn]

private theorem twenty_le_netLen (packet : List Byte) : 20 ≤ netLen packet := by
  unfold netLen
  split <;> omega

private theorem getBe16_onesCksum {k : Nat} (hk : k + 1 < 20) : getBe16 (onesCksum packet) k = getBe16 packet k := by
  have := twenty_le_netLen packet
  rw [getBe16, getU8_onesCksum (by omega), getU8_onesCksum (by omega)]
  rfl

private theorem version_onesCksum : version (onesCksum packet) = version packet := by
  have := twenty_le_netLen packet
  rw [version, getU8_onesCksum (by omega)]
  rfl

end OnesCksum

namespace Alike

variable {a b : List Byte}

theorem version (h : Alike a b) : Tayga.version a = Tayga.version b := by
  induction h with
  | refl => rfl
  | ident _ _ _ _ i ih => rw [(header_renumber _ i).1, ih]
  | ones _ ih => rw [version_onesCksum, ih]

theorem netLen (h : Alike a b) : Tayga.netLen a = Tayga.netLen b := by
  rw [Tayga.netLen, h.version]
  rfl

theorem length (h : Alike a b) : a.length = b.length := by
  induction h with
  | refl => rfl
  | ident _ _ _ hlen i ih => rw [length_renumber hlen, ih]
  | ones _ ih => rw [length_onesCksum, ih]

theorem transportProto (h : Alike a b) : Tayga.transportProto a = Tayga.transportProto b := by
  induction h with
  | refl => rfl
  | @ident a b h hversion _ hlen i ih =>
    rw [← ih, Tayga.transportProto, (header_renumber a i).1, (header_renumber a i).2.2, if_pos hversion,
      Tayga.transportProto, if_pos hversion]
  | @ones a b h ih =>
    have := twenty_le_netLen a
    rw [← ih, Tayga.transportProto, version_onesCksum, getU8_onesCksum (by omega), getU8_onesCksum (by omega)]
    rfl

/-- DF, and the identification if it is clear. -/
theorem df0 (h : Alike a b) : (IsDf0 a ↔ IsDf0 b) ∧ (IsDf0 b → Tayga.ident a = Tayga.ident b) := by
  induction h with
  | refl => exact ⟨Iff.rfl, fun _ => rfl⟩
  | @ident a b h hversion hdf hlen i ih =>
    have hsame : IsDf0 (renumber a i) ↔ IsDf0 a := by
      rw [IsDf0, (header_renumber a i).1, (header_renumber a i).2.1]
      rfl
    exact ⟨hsame.trans ih.1, fun hb => absurd (ih.1.2 hb) hdf⟩
  | @ones a b h ih =>
    have hsame : IsDf0 (onesCksum a) ↔ IsDf0 a := by
      rw [IsDf0, version_onesCksum, getBe16_onesCksum (by decide)]
      rfl
    refine ⟨hsame.trans ih.1, fun hb => ?_⟩
    rw [Tayga.ident, getBe16_onesCksum (by decide)]
    exact ih.2 hb

/-- The bytes behind the checksum of TCP, and behind the network header of any other transport. -/
theorem drop (h : Alike a b) {n : Nat}
    (hn : Tayga.netLen b + 18 ≤ n ∨ Tayga.transportProto b ≠ 6 ∧ Tayga.netLen b ≤ n) : a.drop n = b.drop n := by
  have htwo := twenty_le_netLen b
  induction h with
  | refl => rfl
  | ident _ _ _ hlen i ih => rw [drop_renumber (by omega), ih hn htwo]
  | @ones a b h ih =>
    rw [← ih hn htwo]
    rcases hn with hn | ⟨hproto, -⟩
    · exact drop_onesCksum (by rwa [h.netLen])
    · obtain heq | ⟨htcp, -⟩ := onesCksum_eq a
      · rw [heq]
      · exact absurd (h.transportProto.symm.trans htcp) hproto

/-- The first bytes of the transport header. -/
theorem getU8 (h : Alike a b) {k : Nat} (hk : k < 16) :
    Tayga.getU8 a (Tayga.netLen b + k) = Tayga.getU8 b (Tayga.netLen b + k) := by
  have htwo := twenty_le_netLen b
  induction h with
  | refl => rfl
  | @ident a b h _ _ hlen i ih =>
    rw [← ih htwo, ← Tayga.getU8_drop, ← Tayga.getU8_drop, drop_renumber htwo]
  | @ones a b h ih => rw [← ih htwo, getU8_onesCksum (by rw [h.netLen]; omega)]

end Alike

/-- What is on the left has something alike on the right. -/
theorem forall₂_mem_left {α β : Type} {R : α → β → Prop} {l : List α} {l' : List β} (h : List.Forall₂ R l l') {a : α}
    (ha : a ∈ l) : ∃ b ∈ l', R a b := by
  induction h with
  | nil => cases ha
  | @cons a' b _ l' hab _ ih =>
    rcases List.mem_cons.1 ha with rfl | ha
    · exact ⟨b, List.mem_cons_self, hab⟩
    · obtain ⟨b', hb', hab'⟩ := ih ha
      exact ⟨b', List.mem_cons_of_mem b hb', hab'⟩

/-- The identifications of alike packets, where DF is clear. -/
theorem idents_alike {l l' : List (List Byte)} (h : List.Forall₂ Alike l l') :
    (l.filter fun packet => IsDf0 packet).map ident = (l'.filter fun packet => IsDf0 packet).map ident := by
  induction h with
  | nil => rfl
  | @cons a b _ _ hab _ ih =>
    obtain ⟨hdf, hident⟩ := hab.df0
    rw [List.filter_cons, List.filter_cons]
    by_cases hdf0 : IsDf0 b
    · rw [if_pos (decide_eq_true (hdf.2 hdf0)), if_pos (decide_eq_true hdf0), List.map_cons, List.map_cons, ih,
        hident hdf0]
    · rw [if_neg fun h => hdf0 (hdf.1 (of_decide_eq_true h)), if_neg fun h => hdf0 (of_decide_eq_true h), ih]

/-! ### Headers read back -/

theorem TcpHdr.ofBytes_toBytes (h : TcpHdr) : TcpHdr.ofBytes h.toBytes = h := by
  cases h
  simp only [TcpHdr.ofBytes, TcpHdr.mk.injEq]
  exact ⟨append_be16 _, append_be16 _, ofBytes4_byte4 _, ofBytes4_byte4 _, rfl, rfl, append_be16 _, append_be16 _,
    append_be16 _, rfl⟩

theorem UdpHdr.ofBytes_toBytes (h : UdpHdr) (rest : List Byte) : UdpHdr.ofBytes (h.toBytes ++ rest) = h := by
  cases h
  simp only [UdpHdr.ofBytes, UdpHdr.mk.injEq]
  exact ⟨append_be16 _, append_be16 _, append_be16 _, append_be16 _⟩

private theorem getU8_cons_drop {d : List Byte} {i : Nat} (h : i < d.length) :
    getU8 d i :: d.drop (i + 1) = d.drop i := by
  unfold getU8
  rw [List.getD_eq_getElem?_getD, List.getElem?_eq_getElem h, Option.getD_some, List.getElem_cons_drop]

theorem TcpHdr.toBytes_ofBytes {d : List Byte} (h : 20 ≤ d.length) : (TcpHdr.ofBytes d).toBytes = d := by
  simp only [TcpHdr.toBytes, TcpHdr.ofBytes, List.append_assoc, List.cons_append]
  rw [be16_getBe16_append (i := 18) h, be16_getBe16_append (i := 16) (by omega),
    be16_getBe16_append (i := 14) (by omega), getU8_cons_drop (i := 13) (by omega),
    getU8_cons_drop (i := 12) (by omega), be32_getBe32_append (i := 8) (by omega),
    be32_getBe32_append (i := 4) (by omega), be16_getBe16_append (i := 2) (by omega),
    be16_getBe16_append (i := 0) (by omega)]
  rfl

theorem UdpHdr.toBytes_ofBytes {d : List Byte} (h : 8 ≤ d.length) : (UdpHdr.ofBytes d).toBytes ++ d.drop 8 = d := by
  simp only [UdpHdr.toBytes, UdpHdr.ofBytes, List.append_assoc]
  rw [be16_getBe16_append (i := 6) h, be16_getBe16_append (i := 4) (by omega),
    be16_getBe16_append (i := 2) (by omega), be16_getBe16_append (i := 0) (by omega)]
  rfl

/-- A TCP header of `n` bytes at the front of some data. -/
theorem TcpHdr.toBytes_ofBytes_take {d : List Byte} {n : Nat} (hmin : 20 ≤ n) (hle : n ≤ d.length) :
    (TcpHdr.ofBytes (d.take n)).toBytes ++ d.drop n = d := by
  rw [TcpHdr.toBytes_ofBytes (by rw [List.length_take_of_le hle]; exact hmin), List.take_append_drop]

/-- Bytes written behind a header. -/
theorem put_append (a d s : List Byte) (i : Nat) : put (a ++ d) (a.length + i) s = a ++ put d i s := by
  unfold put
  rw [List.take_length_add_append, Nat.add_assoc, List.drop_length_add_append, List.append_assoc, List.append_assoc,
    List.append_assoc]

theorem put_tcp (h : TcpHdr) (rest : List Byte) (x : BitVec 16) :
    put (h.toBytes ++ rest) 16 (be16 x) = { h with cksum := x }.toBytes ++ rest := rfl

theorem put_udp (h : UdpHdr) (rest : List Byte) (x : BitVec 16) :
    put (h.toBytes ++ rest) 6 (be16 x) = { h with cksum := x }.toBytes ++ rest := rfl

/-! ### Devices that keep the promises -/

/-- The headers of a segment. -/
private theorem wireSegment_fields (packet : List Byte) (i : BitVec 16) (s : Piece Byte)
    (hversion : version packet = 4) :
    Ip4.ofBytes (wireSegment packet i s) = Ip4.renumbered { Ip4.ofBytes packet with
      length := BitVec.ofNat 16 (headersLen packet + s.data.length) } i ∧ 20 ≤ (wireSegment packet i s).length := by
  unfold wireSegment netSegment
  rw [if_pos hversion]
  refine ⟨Ip4.ofBytes_toBytes _ _, ?_⟩
  rw [List.length_append, length_ip4]
  exact Nat.le_add_right 20 _

/-- Segments of an IPv4 packet differ in the identification. -/
private theorem renumber_wireSegment {packet : List Byte} (hversion : version packet = 4) (i j : BitVec 16)
    (s : Piece Byte) :
    renumber (wireSegment packet i s) j = wireSegment packet j s := by
  have hfields := (wireSegment_fields packet i s hversion).1
  unfold renumber
  rw [hfields]
  unfold wireSegment netSegment
  rw [if_pos hversion, if_pos hversion]
  rfl

private theorem wireSegment_alike {packet : List Byte} (hdf : ¬IsDf0 packet) (i j : BitVec 16) (s : Piece Byte) :
    Alike (wireSegment packet j s) (wireSegment packet i s) := by
  by_cases hversion : version packet = 4
  · obtain ⟨hfields, hlen⟩ := wireSegment_fields packet i s hversion
    have hfirst : version (wireSegment packet i s) = 4 := (congrArg (Ip4.verIhl · >>> 4) hfields).trans hversion
    have hflags : getBe16 (wireSegment packet i s) 6 = getBe16 packet 6 := congrArg Ip4.flagsOffset hfields
    rw [← renumber_wireSegment hversion i j s]
    refine .ident (.refl _) hfirst (fun h => hdf ⟨hversion, ?_⟩) hlen j
    rw [← hflags]
    exact h.2
  · have hsame : wireSegment packet j s = wireSegment packet i s := by
      unfold wireSegment netSegment
      rw [if_neg hversion, if_neg hversion]
    rw [hsame]
    exact .refl _

private theorem numberedSegments_alike {packet : List Byte} (hdf : ¬IsDf0 packet) (step i j : BitVec 16)
    (pieces : List (Piece Byte)) : List.Forall₂ Alike (numberedSegments (wireSegment packet) step i pieces)
      (numberedSegments (wireSegment packet) 0 j pieces) := by
  induction pieces generalizing i j with
  | nil => exact .nil
  | cons s rest ih => exact .cons (wireSegment_alike hdf j i s) (ih _ _)

private theorem cutInto_alike (step : BitVec 16) (n : Nat) (packet : List Byte) :
    List.Forall₂ Alike (cutInto step n packet) (cutInto 0 n packet) := by
  unfold cutInto
  by_cases hdf : IsDf0 packet
  · rw [if_pos hdf, if_pos hdf]
    exact List.forall₂_same.2 fun out _ => .refl out
  · rw [if_neg hdf, if_neg hdf]
    exact numberedSegments_alike hdf step _ _ _

theorem Cuttable.ne_none {v : VnetHdr} {packet : List Byte} (h : Cuttable v packet) : v.gso ≠ vnetGsoNone := by
  rw [h.hgso, gsoTypeOf]
  split_ifs <;> decide

theorem kernelDevice_offloads : Offloads kernelDevice where
  hplain _ := rfl
  hwhole v packet hgso := by
    rw [kernelDevice, if_pos hgso]
    by_cases h : ChecksumFits v packet ∧ v.hdrLen.toNat ≤ packet.length
    · rw [if_pos h]
      exact .inr ⟨h.1, _, rfl, .ones (.refl _)⟩
    · exact .inl (if_neg h)
  htakes v packet hgso hfits hhdrLen := by
    rw [kernelDevice, if_pos hgso, if_pos ⟨hfits, hhdrLen⟩]
    exact List.cons_ne_nil _ _
  hcuts v packet h := by
    rw [kernelDevice, if_neg h.ne_none]
    exact cutInto_alike 1 _ packet

theorem onWire_offloads : Offloads onWire where
  hplain _ := rfl
  hwhole v packet hgso := by
    rw [onWire, if_pos hgso]
    by_cases hfits : ChecksumFits v packet
    · rw [if_pos hfits]
      exact .inr ⟨hfits, _, rfl, .refl _⟩
    · exact .inl (if_neg hfits)
  htakes v packet hgso hfits _ := by
    rw [onWire, if_pos hgso, if_pos hfits]
    exact List.cons_ne_nil _ _
  hcuts v packet h := by
    rw [onWire, if_neg h.ne_none]
    exact cutInto_alike 0 _ packet

/-! ### What every device does -/

/-- The packet goes out, whatever the device. -/
def Handed (vhdr : Option VnetHdr) (packet : List Byte) : Prop :=
  ∀ v, vhdr = some v →
    v.gso = vnetGsoNone ∧ ChecksumFits v packet ∧ v.hdrLen.toNat ≤ packet.length ∨ Cuttable v packet

theorem handed_none (packet : List Byte) : Handed none packet := fun v h => absurd h (Option.some_ne_none v).symm

/-- **Up to what is left to it**, a device does what `onWire` says. -/
theorem Offloads.alike {device : Device} (h : Offloads device) {vhdr : Option VnetHdr} {packet : List Byte}
    (hp : Handed vhdr packet) : List.Forall₂ Alike (device vhdr packet) (onWire vhdr packet) := by
  cases vhdr with
  | none =>
    rw [h.hplain]
    exact .cons (.refl packet) .nil
  | some v =>
    rcases hp v rfl with ⟨hgso, hfits, hhdrLen⟩ | hcut
    · rw [onWire, if_pos hgso, if_pos hfits]
      rcases h.hwhole v packet hgso with hnil | ⟨-, out, hout, halike⟩
      · exact absurd hnil (h.htakes v packet hgso hfits hhdrLen)
      · rw [hout]
        exact .cons halike .nil
    · rw [onWire, if_neg hcut.ne_none]
      exact h.hcuts v packet hcut

section Lengths

variable {device : Device} {v : VnetHdr} {packet out : List Byte}

theorem length_completed (hfits : ChecksumFits v packet) : (completed v packet).length = packet.length := by
  unfold completed
  split
  · next hneeds => exact length_put_be16 (hfits hneeds)
  · rfl

/-- What is no aggregate goes out as it is long. -/
theorem Offloads.length_whole (h : Offloads device) (hgso : v.gso = vnetGsoNone) (hout : out ∈ device (some v) packet) :
    out.length = packet.length := by
  rcases h.hwhole v packet hgso with hnil | ⟨hfits, out', hone, halike⟩
  · rw [hnil] at hout
    cases hout
  · rw [hone] at hout
    rw [List.mem_singleton.1 hout, halike.length, length_completed hfits]

/-- A packet whose checksum does not lie in its first byte keeps its version. -/
theorem version_completed (hfits : ChecksumFits v packet) (hstart : 0 < v.csumStart.toNat + v.csumOffset.toNat) :
    version (completed v packet) = version packet := by
  unfold completed
  split
  · next hneeds =>
    have := hfits hneeds
    dsimp only
    rw [version, getU8_put hstart (by omega)]
    rfl
  · rfl

/-- A segment has the headers of the aggregate. -/
theorem length_wireSegment (h : Cuttable v packet) (i : BitVec 16) (s : Piece Byte) :
    (wireSegment packet i s).length = headersLen packet + s.data.length := by
  have hlen := h.hlen
  have hl4 : ((packet.take (headersLen packet)).drop (netLen packet)).length = transportLen packet := by
    rw [List.length_drop, List.length_take_of_le hlen, headersLen, Nat.add_sub_cancel_left]
  have hnet : (netSegment packet i (headersLen packet + s.data.length)).length = netLen packet := by
    unfold netSegment netLen
    split <;> rfl
  unfold wireSegment
  dsimp only
  rw [List.length_append, hnet, headersLen, Nat.add_assoc]
  congr 1
  rcases h.hproto with ⟨hproto, hmin⟩ | hproto
  · rw [hproto, if_neg (by decide), tcpSegment, List.length_append, length_tcp]
    have hread := congrArg List.length
      (TcpHdr.toBytes_ofBytes (d := (packet.take (headersLen packet)).drop (netLen packet)) (by omega))
    rw [length_tcp, hl4] at hread
    exact congrArg (· + s.data.length) hread
  · rw [if_pos hproto, udpSegment, List.length_append, length_udp, transportLen, if_pos hproto]

/-- A segment has the version of the aggregate. -/
theorem version_wireSegment (packet : List Byte) (i : BitVec 16) (s : Piece Byte) :
    version (wireSegment packet i s) = version packet := by
  by_cases hversion : version packet = 4
  · exact congrArg (Ip4.verIhl · >>> 4) (wireSegment_fields packet i s hversion).1
  · unfold wireSegment netSegment
    rw [if_neg hversion]
    dsimp only
    rw [version, (Ip6.getU8_toBytes _ _).1]
    exact congrArg (fun b : Byte => b >>> 4) (byte4_ofBytes4_zero _ _ _ _)

end Lengths

/-! ### Packets on the wire -/

section Wire

variable {device : Device} {ans : (op : PktOp) → op.Ans}

/-- What goes out when every operation has its fixed answer. -/
def wire {α : Type} (device : Device) (ans : (op : PktOp) → op.Ans) (prog : PktProg α) : List (List Byte) :=
  (sent ans prog).flatMap fun out => device out.1 out.2

@[simp] theorem wire_done {α : Type} (a : α) : wire device ans (.done a) = [] := rfl

private theorem sent_bind {α β : Type} (prog : PktProg α) (f : α → PktProg β) :
    sent ans (prog >>= f) = sent ans prog ++ sent ans (f (prog.answer ans)) := by
  unfold sent
  rw [asked_bind, List.filterMap_append]

theorem wire_bind {α β : Type} (prog : PktProg α) (f : α → PktProg β) :
    wire device ans (prog >>= f) = wire device ans prog ++ wire device ans (f (prog.answer ans)) := by
  rw [wire, sent_bind, List.flatMap_append]
  rfl

theorem wire_emit {α : Type} (vhdr : Option VnetHdr) (packet : List Byte) (f : Unit → PktProg α) :
    wire device ans (emit vhdr packet >>= f) = device vhdr packet ++ wire device ans (f ()) := rfl

/-- What holds of everything that goes out for a packet. -/
theorem OnlySends.wire {α : Type} {P : List Byte → Prop} {prog : PktProg α}
    (h : OnlySends (fun vhdr packet => ∀ out ∈ device vhdr packet, P out) prog) {out : List Byte}
    (hout : out ∈ wire device ans prog) : P out := by
  obtain ⟨written, hmem, hout⟩ := List.mem_flatMap.1 hout
  exact h.mem hmem out hout

/-- The packet goes out as it is, whatever the device. -/
def Plain (vhdr : Option VnetHdr) (_ : List Byte) : Prop := vhdr = none

/-- Packets without a virtio header go out as they are. -/
theorem Offloads.wire_plain (h : Offloads device) {α : Type} {prog : PktProg α} (hplain : OnlySends Plain prog) :
    wire device ans prog = written ans prog := by
  have hall := Asks.asked hplain ans
  unfold wire sent written
  generalize prog.asked ans = ops at hall
  induction ops with
  | nil => rfl
  | cons op ops ih =>
    have ih := ih fun op hop => hall op (List.mem_cons_of_mem _ hop)
    have hop := hall op List.mem_cons_self
    cases op with
    | write vhdr packet =>
      obtain rfl : vhdr = none := hop
      show device none packet ++ _ = packet :: _
      rw [h.hplain]
      exact congrArg (packet :: ·) ih
    | _ => exact ih

theorem Offloads.wire_alike (h : Offloads device) {α : Type} {prog : PktProg α} (hprog : OnlySends Handed prog) :
    List.Forall₂ Alike (wire device ans prog) (wire onWire ans prog) := by
  have hall := fun out (hmem : out ∈ sent ans prog) => hprog.mem hmem
  unfold wire
  generalize sent ans prog = outs at hall
  induction outs with
  | nil => exact .nil
  | cons out outs ih =>
    rw [List.flatMap_cons, List.flatMap_cons]
    exact List.rel_append (h.alike (hall out List.mem_cons_self))
      (ih fun out hout => hall out (List.mem_cons_of_mem _ hout))

end Wire

end Tayga
