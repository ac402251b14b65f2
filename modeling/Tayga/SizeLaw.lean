import Tayga.FragmentLaw
import Tayga.Wire

/-!
# How long the packets to IPv6 get

A plain packet is translated to packets that fit the MTU, and the limit for packets that may be fragmented if DF is
clear (`plain_fits`).  The entry points for aggregates look at the MTU alone, and only if DF is set: with DF clear the
segments that a device cuts, or those cut here, are as long as the sender made them (`size_limit6`).
-/

namespace Tayga

open Program

variable {g : Gcfg} {d : List Byte} {vhdr : Option VnetHdr} {ans : (op : PktOp) → op.Ans} {device : Device}

/-! ### Packets on the wire -/

/-- DF is clear in the IPv4 packet. -/
def DfClear (d : List Byte) : Prop := (Ip4.ofBytes d).flagsOffset &&& ip4FDf = 0

instance : Decidable (DfClear d) := inferInstanceAs (Decidable (_ = _))

/-- An IPv6 packet is no longer than the MTU, and with DF clear no longer than the limit. -/
def FitsLimit (g : Gcfg) (d : List Byte) (packet : List Byte) : Prop :=
  version packet = 6 → packet.length ≤ g.mtu ∧ (DfClear d → packet.length ≤ limit6 g)

/-- What goes out for a packet fits. -/
def Fits (device : Device) (g : Gcfg) (d : List Byte) (vhdr : Option VnetHdr) (packet : List Byte) : Prop :=
  ∀ out ∈ device vhdr packet, FitsLimit g d out

/-- An IPv4 packet that goes out as it is. -/
def Reply4 (vhdr : Option VnetHdr) (packet : List Byte) : Prop := vhdr = none ∧ version packet = 4

theorem Reply4.fits (hdev : Offloads device) {packet : List Byte} (h : Reply4 vhdr packet) :
    Fits device g d vhdr packet := by
  obtain ⟨rfl, h4⟩ := h
  intro out hout h6
  rw [hdev.hplain, List.mem_singleton] at hout
  rw [hout, h4] at h6
  exact absurd h6 (by decide)

/-- What is no aggregate is as long on the wire. -/
private theorem length_onWire (hdev : Offloads device) (hplain : ∀ v, vhdr = some v → v.gso = vnetGsoNone)
    {packet out : List Byte} (hout : out ∈ device vhdr packet) : out.length = packet.length := by
  cases vhdr with
  | none =>
    rw [hdev.hplain, List.mem_singleton] at hout
    rw [hout]
  | some v => exact hdev.length_whole (hplain v rfl) hout

/-- One packet, no longer than the limit. -/
private theorem fits_of_le (hdev : Offloads device) (hplain : ∀ v, vhdr = some v → v.gso = vnetGsoNone)
    {packet : List Byte} (hle : packet.length ≤ limit6 g) : Fits device g d vhdr packet := by
  intro out hout _
  rw [length_onWire hdev hplain hout]
  exact ⟨hle.trans limit6_le, fun _ => hle⟩

/-! ### Plain packets -/

section Plain

variable {p : Pkt4}

theorem outVhdr_gso {proto : Byte} {l3Len : BitVec 16} {v : VnetHdr} (h : outVhdr proto l3Len vhdr = some v) :
    v.gso = vnetGsoNone := by
  unfold outVhdr at h
  split at h
  · obtain ⟨v, -, rfl⟩ := Option.map_eq_some_iff.1 h
    exact show vnetGsoNone &&& ~~~vnetGsoEcn = vnetGsoNone by decide
  · cases h

private theorem hostSendIcmp4Error_replies {type code : Byte} {word : BitVec 32} :
    OnlySends Reply4 (hostSendIcmp4Error g type code word p) :=
  .ite (fun _ => .done _) fun _ => .emit ⟨rfl, version_icmpPacket4 _ _ _ _ _ _⟩

private theorem hostSendIcmp4Error_fits (hdev : Offloads device) {type code : Byte} {word : BitVec 32} :
    OnlySends (Fits device g d) (hostSendIcmp4Error g type code word p) :=
  hostSendIcmp4Error_replies.mono fun _ _ h => h.fits hdev

/-- Every fragment is at most 48 bytes longer than the size the loop is given. -/
private theorem fragmentLoop_fits (hdev : Offloads device) {ip6 : Ip6} {frag : Ip6Frag} {mf : Bool} {size : Nat}
    (hsize : 48 + size ≤ limit6 g) (n : Nat) (off : BitVec 16) (data : List Byte) :
    OnlySends (Fits device g d) (fragmentLoop ip6 frag mf n off size data) := by
  induction n generalizing off size data with
  | zero => trivial
  | succ n ih =>
    unfold fragmentLoop
    dsimp only
    refine .ite (fun _ => .done _) fun _ => ?_
    generalize hpart : (if data.length < size then data.length else size) = part
    have hle : 48 + part ≤ limit6 g := by
      rw [← hpart]
      split <;> omega
    refine ⟨fits_of_le hdev (fun v h => absurd h (Option.some_ne_none v).symm) ?_, fun ret =>
      OnlySends.ite (fun _ => .done _) fun _ => ih hle _ _⟩
    rw [List.length_append, List.length_append, length_ip6, length_ip6Frag, List.length_take]
    omega

private theorem xlate4to6Emit_whole_fits (hdev : Offloads device) {src dest : In6} {n : Nat}
    (hp : Parsed4 d vhdr false p)
    (hmtu : 40 + p.data.length ≤ g.mtu) (hlimit : DfClear d → 40 + p.data.length ≤ limit6 g) :
    OnlySends (Fits device g d) (xlate4to6Emit g p src dest n true) := by
  unfold xlate4to6Emit
  dsimp only
  rcases hq : xlatePayload4to6 g p { xlateHeader4to6 p src dest p.data.length with
    hopLimit := (xlateHeader4to6 p src dest p.data.length).hopLimit - 1 } false with _ | q
  · exact .statsDrop _
  · refine .emit fun out hout _ => ?_
    have hlen := length_payload4to6 hp hq
    have hout := length_onWire hdev (fun v => outVhdr_gso) hout
    rw [List.length_append, length_ip6, hlen] at hout
    rw [hout]
    exact ⟨hmtu, hlimit⟩

private theorem xlate4to6Emit_fragments_fits (hdev : Offloads device) {src dest : In6} (hlimit : 1280 ≤ limit6 g) :
    OnlySends (Fits device g d) (xlate4to6Emit g p src dest (limit6 g - 40) false) := by
  unfold xlate4to6Emit
  dsimp only
  split
  · exact .statsDrop _
  · exact fragmentLoop_fits hdev (by omega) _ _ _

private theorem xlate4to6Data_fits (hdev : Offloads device) (hp : Parsed4 d vhdr false p) (hlimit : 1280 ≤ limit6 g) :
    OnlySends (Fits device g d) (xlate4to6Data g p) := by
  have hreject : ∀ code, OnlySends (Fits device g d)
      (statsDrop p.data.length >>= fun _ => hostSendIcmp4Error g 3 code 0 p) :=
    fun code => (OnlySends.statsDrop _).bind fun _ => hostSendIcmp4Error_fits hdev
  have hle := limit6_le (g := g)
  refine ⟨trivial, fun r => ?_⟩
  rcases r with (_ | _ | _) | dest
  · exact hreject 1
  · exact OnlySends.statsDrop _
  · exact OnlySends.statsDrop _
  refine ⟨trivial, fun r => ?_⟩
  rcases r with (_ | _ | _) | src
  · exact hreject 10
  · exact OnlySends.statsDrop _
  · exact OnlySends.statsDrop _
  refine OnlySends.ite (fun _ => .ite (fun hdf => .ite (fun _ => hostSendIcmp4Error_fits hdev) fun hfit => ?_)
    fun hdf => ?_) fun _ => xlate4to6Emit_fragments_fits hdev hlimit
  · refine xlate4to6Emit_whole_fits hdev hp (Nat.not_lt.1 hfit) fun h => absurd ?_ hdf
    rw [hp.hip4]
    exact h
  · by_cases hwhole : p.data.length ≤ limit6 g - 40
    · rw [show decide (p.data.length ≤ (if g.mtu < g.ipv6OfflinkMtu then g.mtu else g.ipv6OfflinkMtu) - 40) = true
        from decide_eq_true hwhole]
      exact xlate4to6Emit_whole_fits hdev hp (by omega) fun _ => by omega
    · rw [show decide (p.data.length ≤ (if g.mtu < g.ipv6OfflinkMtu then g.mtu else g.ipv6OfflinkMtu) - 40) = false
        from decide_eq_false hwhole]
      exact xlate4to6Emit_fragments_fits hdev hlimit

/-- A translated error quotes so little that it has 1280 bytes at most. -/
private theorem errorTo6_fits (hdev : Offloads device) {packet : List Byte} (hlimit : 1280 ≤ limit6 g)
    (h : ErrorTo6 g p packet) : Fits device g d none packet := by
  obtain @⟨em, icmp, src, dest, q, emSrc, emDest, hquote, -, hpayload⟩ := h
  obtain ⟨⟨d', -, hparse⟩, -⟩ := quote4_eq_some hquote
  have hlen := length_emCut4 hparse hpayload
  have hfrag : em.fragLen ≤ 8 := by
    unfold Pkt4.fragLen
    split <;> omega
  refine fits_of_le hdev (fun v h => absurd h (Option.some_ne_none v).symm) ?_
  unfold errorPacket4to6
  dsimp only
  rw [List.length_append, List.length_append, List.length_append, length_ip6, length_icmp, length_emHeader4to6]
  omega

/-- **A plain packet** is translated to packets that fit. -/
theorem plain_fits (hdev : Offloads device) (hlimit : 1280 ≤ limit6 g) :
    OnlySends (Fits device g d) (handlePlain4 g d vhdr) := by
  unfold handlePlain4
  rcases hparse : parseIp4 d vhdr false with n | p
  · exact OnlySends.statsDrop _
  dsimp only
  have hp := parsed4_of_parseIp4 hparse
  refine .ite (fun _ => .statsDrop _) fun _ => .ite (fun _ => .statsDrop _) fun _ =>
    .ite (fun _ => .ite (fun _ => ?_) fun _ => hostSendIcmp4Error_fits hdev) fun _ =>
    .ite (fun _ => hostSendIcmp4Error_fits hdev) fun _ =>
    .ite (fun _ => xlate4to6Data_fits hdev hp hlimit) fun _ => ?_
  · exact .ite (fun _ => .emit (Reply4.fits hdev ⟨rfl, version_icmpPacket4 _ _ _ _ _ _⟩)) fun _ => .done _
  · refine (xlate4to6IcmpError_errorTo6 p).mono fun out packet h => ?_
    obtain ⟨rfl, h⟩ := h
    exact errorTo6_fits hdev hlimit h

end Plain

/-! ### The segments of an aggregate -/

section Segments

variable {v : VnetHdr} {ihl l4Len : Nat}

theorem gsoSize_pos (h : gsoValidateHeader d.length v = 1) : 0 < v.gsoSize.toNat := by
  refine Nat.pos_of_ne_zero fun hzero => ?_
  have hvalid : ¬gsoValidateHeader d.length v ≤ 0 := by
    rw [h]
    decide
  exact gsoSize_ne_zero hvalid (BitVec.eq_of_toNat_eq hzero)

/-- What goes out for an aggregate: packets with `size` bytes of transport header and data at most, and one of version 6
with as many. -/
structure SendsUpTo (device : Device) (ans : (op : PktOp) → op.Ans) (size : Nat) (prog : PktProg Bool) : Prop where
  hle : OnlySends (fun vhdr packet => ∀ out ∈ device vhdr packet, out.length ≤ 40 + size) prog
  hmax : ∃ out ∈ wire device ans prog, version out = 6 ∧ out.length = 40 + size

/-- One write. -/
theorem SendsUpTo.emit {vhdr : Option VnetHdr} {packet : List Byte} {size : Nat}
    (hle : ∀ out ∈ device vhdr packet, out.length ≤ 40 + size)
    (hmax : ∃ out ∈ device vhdr packet, version out = 6 ∧ out.length = 40 + size) :
    SendsUpTo device ans size (do emit vhdr packet; return true) := by
  refine ⟨(OnlySends.emit hle).bind fun _ => .done _, ?_⟩
  rw [wire_emit]
  show ∃ out ∈ device vhdr packet ++ [], _
  rwa [List.append_nil]

private theorem mem_numberedSegments {segment : BitVec 16 → Cut.Piece Byte → List Byte} {step i : BitVec 16}
    {pieces : List (Cut.Piece Byte)} {out : List Byte} (h : out ∈ numberedSegments segment step i pieces) :
    ∃ j, ∃ s ∈ pieces, out = segment j s := by
  induction pieces generalizing i with
  | nil => cases h
  | cons s rest ih =>
    rcases List.mem_cons.1 h with rfl | h
    · exact ⟨i, s, List.mem_cons_self, rfl⟩
    · obtain ⟨j, s', hs', hout⟩ := ih h
      exact ⟨j, s', List.mem_cons_of_mem _ hs', hout⟩

/-- The longest of the segments that a device cuts from an aggregate. -/
theorem Cuttable.segments (hdev : Offloads device) {w : VnetHdr} {packet : List Byte} (h : Cuttable w packet) {n : Nat}
    (hheaders : headersLen packet = n) :
    (∀ out ∈ device (some w) packet, out.length ≤ n + maxSeg (packet.length - n) w.gsoSize.toNat) ∧
    ∃ out ∈ device (some w) packet, version out = version packet ∧
      out.length = n + maxSeg (packet.length - n) w.gsoSize.toNat := by
  have hcut := hdev.hcuts w packet h
  have hlen : ∀ i s, (wireSegment packet i s).length = n + s.data.length := fun i s => by
    rw [length_wireSegment h, hheaders]
  obtain ⟨s, rest, hfirst, hmax⟩ := cut_first w.gsoSize.toNat (packet.drop n) h.hsize
  rw [List.length_drop] at hmax
  rw [cutInto, hheaders] at hcut
  generalize device (some w) packet = outs at *
  constructor
  · intro out hout
    obtain ⟨a, ha, halike⟩ := forall₂_mem_left hcut hout
    obtain ⟨i, s, hs, rfl⟩ := mem_numberedSegments ha
    have hle := Cut.length_data_le h.hsize hs
    have hwhole := Cut.length_data_le_length hs
    rw [List.length_drop] at hwhole
    rw [halike.length, hlen]
    unfold maxSeg
    split <;> omega
  · rw [hfirst] at hcut
    cases hcut with
    | @cons out a outs rest halike _ =>
      refine ⟨out, List.mem_cons_self, ?_, ?_⟩
      · rw [halike.version, version_wireSegment]
      · rw [halike.length, hlen, hmax]

variable (ans v l4Len) in
/-- An aggregate behind an IPv6 header, as it is handed over. -/
private theorem SendsUpTo.aggregate (hdev : Offloads device) {w : VnetHdr} {packet : List Byte}
    (hp : Handed (some w) packet) (hversion : version packet = 6) {n : Nat} (hlen : packet.length = 40 + n)
    (hheaders : headersLen packet = 40 + l4Len) (hfit : l4Len ≤ n) (hstart : w.csumStart.toNat = 40)
    (hnone : w.gso = vnetGsoNone → n ≤ l4Len + v.gsoSize.toNat)
    (hsize : w.gso ≠ vnetGsoNone → w.gsoSize = v.gsoSize) :
    SendsUpTo device ans (l4Len + maxSeg (n - l4Len) v.gsoSize.toNat)
      (do Tayga.emit (some w) packet; return true) := by
  rcases hp w rfl with ⟨hgso, hfits, hhdrLen⟩ | hcut
  · have hle := hnone hgso
    have hall : 40 + (l4Len + maxSeg (n - l4Len) v.gsoSize.toNat) = packet.length := by
      unfold maxSeg
      split <;> omega
    have halike := hdev.alike hp
    rw [onWire, if_pos hgso, if_pos hfits] at halike
    obtain ⟨out, rest, hout⟩ := List.ne_nil_iff_exists_cons.1 (hdev.htakes w packet hgso hfits hhdrLen)
    have hone : version out = 6 ∧ out.length = packet.length := by
      rw [hout] at halike
      cases halike with
      | cons halike _ =>
        rw [halike.version, halike.length, version_completed hfits (by omega), length_completed hfits]
        exact ⟨hversion, rfl⟩
    refine .emit (fun out hout => ?_) ⟨out, ?_, hone.1, hone.2.trans hall.symm⟩
    · rw [hdev.length_whole hgso hout, hall]
    · rw [hout]
      exact List.mem_cons_self
  · obtain ⟨hle, hmax⟩ := hcut.segments hdev hheaders
    rw [hsize hcut.ne_none, hlen, Nat.add_sub_add_left, Nat.add_assoc] at hle hmax
    rw [hversion] at hmax
    exact .emit hle hmax

/-- The loop of the software emitters sends the segments its builder makes. -/
theorem SendsUpTo.segmentLoop (hdev : Offloads device) {gsoSize l4Len n : Nat} {build : SegmentBuilder}
    {nextId : BitVec 16} {payload : List Byte}
    (hbuild : ∀ offset isLast nextId seg r, build offset isLast nextId seg = some r →
      version r.1 = 6 ∧ r.1.length = 40 + (l4Len + seg.length))
    (hfirst : build 0 (payload.drop gsoSize).isEmpty nextId (payload.take gsoSize) ≠ none) :
    SendsUpTo device ans (l4Len + maxSeg payload.length gsoSize)
      (segmentLoop gsoSize build (n + 1) 0 nextId payload) := by
  have hseg : ∀ l : List Byte, l.length ≤ payload.length → (l.take gsoSize).length ≤ maxSeg payload.length gsoSize := by
    intro l hl
    rw [List.length_take]
    unfold maxSeg
    split <;> omega
  constructor
  · suffices h : ∀ n offset nextId (l : List Byte), l.length ≤ payload.length →
        OnlySends (fun vhdr packet => ∀ out ∈ device vhdr packet,
            out.length ≤ 40 + (l4Len + maxSeg payload.length gsoSize))
          (Tayga.segmentLoop gsoSize build n offset nextId l) from h _ _ _ _ (Nat.le_refl _)
    intro n
    induction n with
    | zero => exact fun _ _ _ _ => trivial
    | succ n ih =>
      intro offset nextId l hl
      unfold Tayga.segmentLoop
      dsimp only
      split
      · trivial
      next packet nextId' hr =>
      have hlen : packet.length = _ := (hbuild _ _ _ _ _ hr).2
      have hle := hseg l hl
      refine ⟨fun out hout => ?_, fun ret => OnlySends.ite (fun _ => trivial) fun _ => OnlySends.ite (fun _ => trivial)
        fun _ => ih _ _ _ ?_⟩
      · rw [hdev.hplain, List.mem_singleton] at hout
        rw [hout]
        omega
      · rw [List.length_drop]
        omega
  · obtain ⟨r, hr⟩ := Option.ne_none_iff_exists'.1 hfirst
    obtain ⟨hv, hlen⟩ := hbuild _ _ _ _ _ hr
    refine ⟨r.1, ?_, hv, ?_⟩
    · unfold Tayga.segmentLoop
      dsimp only
      rw [hr]
      refine List.mem_flatMap.2 ⟨(none, r.1), List.mem_cons_self, ?_⟩
      rw [hdev.hplain]
      exact List.mem_singleton.2 rfl
    · rw [hlen, List.length_take]
      unfold maxSeg
      split <;> omega

variable (d v ihl) in
/-- The data of an aggregate behind its IPv4 header. -/
theorem length_gsoPkt4_data (proto : Byte) : (gsoPkt4 d v ihl proto).data.length = d.length - ihl := List.length_drop

variable (d v ihl l4Len) in
private theorem length_gsoPkt4_payload (proto : Byte) :
    ((gsoPkt4 d v ihl proto).data.drop l4Len).length = d.length - ihl - l4Len := by
  rw [List.length_drop, length_gsoPkt4_data]

private theorem buildTcp4to6_length {e : Endian} {p : Pkt4} {src6 dst6 : In6} {offset : Nat} {isLast : Bool}
    {nextId : BitVec 16} {seg : List Byte} {r : List Byte × BitVec 16} (hl4 : 20 ≤ l4Len) (hfit : l4Len ≤ p.data.length)
    (hr : buildTcp4to6 e p (TcpHdr.ofBytes (p.data.take l4Len)) l4Len src6 dst6 offset isLast nextId seg = some r) :
    version r.1 = 6 ∧ r.1.length = 40 + (l4Len + seg.length) := by
  refine ⟨buildTcp4to6_version hr, ?_⟩
  unfold buildTcp4to6 at hr
  dsimp only at hr
  split at hr
  · cases hr
  cases hr
  have hoptions : ((TcpHdr.ofBytes (p.data.take l4Len)).segment offset isLast).options.length = l4Len - 20 := by
    show ((p.data.take l4Len).drop 20).length = _
    rw [List.length_drop, List.length_take_of_le hfit]
  rw [List.length_append, List.length_append, length_ip6, length_tcp]
  dsimp only
  rw [hoptions]
  omega

private theorem buildUdp4to6_length {e : Endian} {p : Pkt4} {udp : UdpHdr} {src6 dst6 : In6} {offset : Nat}
    {isLast : Bool} {nextId : BitVec 16} {seg : List Byte} {r : List Byte × BitVec 16}
    (hr : buildUdp4to6 e p udp src6 dst6 offset isLast nextId seg = some r) :
    version r.1 = 6 ∧ r.1.length = 40 + (8 + seg.length) := by
  refine ⟨buildUdp4to6_version hr, ?_⟩
  unfold buildUdp4to6 at hr
  dsimp only at hr
  split at hr
  · cases hr
  cases hr
  rw [List.length_append, List.length_append, length_ip6, Nat.add_assoc]
  rfl

/-- **The TCP aggregate that is handed over.** -/
theorem tcp_packet6 (h : Aggregate4 .tcp g d v ihl l4Len) (hlen : d.length < 65536) (r : In6 × In6) (seed : BitVec 16) :
    let p := gsoPkt4 d v ihl 6
    let net := (gsoIp6 p.ip4.tos (p.ip4.ttl - 1) 6 r.1 r.2 p.data.length).toBytes
    let w := gsoNormalizeTcpOutput (gsoTcpVhdr v vnetGsoTcpv6 (BitVec.ofNat 16 ihl) 40) (p.data.drop l4Len).length
    TcpPacket (net ++ put p.data 16 (be16 seed)) net { TcpHdr.ofBytes (p.data.take l4Len) with cksum := seed }
        (p.data.drop l4Len) ∧
      TcpOffload w vnetGsoTcpv6 net.length v.gsoSize.toNat (p.data.drop l4Len).length ∧
      Handed (some w) (net ++ put p.data 16 (be16 seed)) := by
  intro p net w
  have htcp : TcpAggregate d v false ihl l4Len := h.hl4
  obtain ⟨-, -, hstart, hoffset, hhdrMin, hhdrMax⟩ := gsoValidateTransportVnet_iff.1 (htcp.hvnet (.inl rfl))
  have hmin := htcp.hmin
  have hfit := htcp.hfit
  have hdata : p.data.length = d.length - ihl := length_gsoPkt4_data d v ihl 6
  obtain ⟨hl4, hdoff⟩ := tcpHeader p.data htcp.hl4 hmin (by omega)
  have hput := put_tcp (TcpHdr.ofBytes (p.data.take l4Len)) (p.data.drop l4Len) seed
  rw [TcpHdr.toBytes_ofBytes_take hmin (by omega)] at hput
  have hput16 : (put p.data 16 (be16 seed)).length = p.data.length := length_put_be16 (by omega)
  obtain ⟨hproto, hnet⟩ := @fields_behind6 (gsoIp6 p.ip4.tos (p.ip4.ttl - 1) 6 r.1 r.2 p.data.length) _ rfl
    (put p.data 16 (be16 seed))
  have hpacket : TcpPacket (net ++ put p.data 16 (be16 seed)) net
      { TcpHdr.ofBytes (p.data.take l4Len) with cksum := seed } (p.data.drop l4Len) :=
    ⟨by rw [hput], netLen_ip6 rfl, hproto, hdoff⟩
  have hoff : TcpOffload w vnetGsoTcpv6 net.length v.gsoSize.toNat (p.data.drop l4Len).length :=
    tcpOffload_moved (.inr rfl) hstart hoffset (Nat.le_refl 40) rfl
      (gsoTcpVhdr v vnetGsoTcpv6 (BitVec.ofNat 16 ihl) 40).hdrLen _
  refine ⟨hpacket, hoff, handed_tcp hpacket hoff (hnet ?_) ?_ (gsoSize_pos h.hheader) ?_⟩
  · rw [hput16]
    exact (BitVec.toNat_ofNat _ _).trans (Nat.mod_eq_of_lt (by omega))
  · have hversion : version (net ++ put p.data 16 (be16 seed)) = 6 := Ip6.version_toBytes rfl _
    rw [gsoTypeOf, hproto, hversion]
    rfl
  · have hw : w.hdrLen = (gsoTcpVhdr v vnetGsoTcpv6 (BitVec.ofNat 16 ihl) 40).hdrLen :=
      (gsoNormalizeTcpOutput_fields rfl).1
    have hmoved : w.hdrLen.toNat = (v.hdrLen.toNat + 40 - ihl) % 65536 := (congrArg BitVec.toNat hw).trans
      (moved_toNat (by omega) (by decide))
    have hle := Nat.mod_le (v.hdrLen.toNat + 40 - ihl) 65536
    rw [hmoved, List.length_append, length_ip6, hput16, hdata]
    omega

/-- The TCP aggregate that is handed over, on the wire. -/
private theorem tcp_sendsUpTo (hdev : Offloads device) (h : Aggregate4 .tcp g d v ihl l4Len) (hlen : d.length < 65536)
    (r : In6 × In6) : SendsUpTo device ans (largestL4 d v ihl l4Len) (GsoEntry.send .tcp g d v ihl l4Len r) := by
  have htcp : TcpAggregate d v false ihl l4Len := h.hl4
  have hmin := htcp.hmin
  have hfit := htcp.hfit
  have hdata := length_gsoPkt4_data d v ihl 6
  have hpayload := length_gsoPkt4_payload d v ihl l4Len 6
  unfold GsoEntry.send
  dsimp only
  rw [show GsoEntry.tcp.proto = 6 from rfl]
  obtain ⟨hpacket, hoff, hhanded⟩ := tcp_packet6 h hlen r
    (gsoCalcPseudo6 r.1 r.2 6 (BitVec.ofNat 32 (gsoPkt4 d v ihl 6).data.length))
  have hput : (put (gsoPkt4 d v ihl 6).data 16 (be16 (gsoCalcPseudo6 r.1 r.2 6
      (BitVec.ofNat 32 (gsoPkt4 d v ihl 6).data.length)))).length = (gsoPkt4 d v ihl 6).data.length :=
    length_put_be16 (by omega)
  generalize gsoCalcPseudo6 r.1 r.2 6 (BitVec.ofNat 32 (gsoPkt4 d v ihl 6).data.length) = seed at *
  refine SendsUpTo.aggregate ans v l4Len hdev hhanded (Ip6.version_toBytes rfl _) ?_ ?_ (by omega) hoff.hstart ?_ ?_
  · rw [List.length_append, length_ip6, hput, hdata]
  · exact hpacket.headersLen.trans (congrArg _
      (tcpHeader (gsoPkt4 d v ihl 6).data htcp.hl4 hmin (by omega)).1)
  · intro hnone
    rcases hoff.hgso with ⟨-, hle⟩ | ⟨hgso, -⟩
    · omega
    · rw [hnone] at hgso
      exact absurd hgso (by decide)
  · intro hne
    rcases hoff.hgso with ⟨hnone, -⟩ | ⟨-, hsize⟩
    · exact absurd hnone hne
    · exact BitVec.eq_of_toNat_eq hsize

theorem gsoUdpVhdr_gso (v : VnetHdr) (l3Len : BitVec 16) : (gsoUdpVhdr v l3Len).gso = vnetGsoUdpL4 :=
  (show ∀ x : Byte, (vnetGsoUdpL4 ||| (x &&& vnetGsoEcn)) &&& ~~~vnetGsoEcn = vnetGsoUdpL4 by decide) v.gsoType

/-- **The UDP aggregate that is handed over.** -/
theorem udp_packet6 (h : Aggregate4 .udp g d v 20 8) (hlen : d.length < 65536) (r : In6 × In6) (seed : BitVec 16) :
    let p := gsoPkt4 d v 20 17
    let net := (gsoIp6 p.ip4.tos (p.ip4.ttl - 1) 17 r.1 r.2 p.data.length).toBytes
    UdpPacket (net ++ gsoUdpSeed p.data seed) net { UdpHdr.ofBytes p.data with cksum := nonzeroCksum seed }
        (p.data.drop 8) ∧
      UdpOffload (gsoUdpVhdr v 40) net.length v.gsoSize.toNat ∧
      Handed (some (gsoUdpVhdr v 40)) (net ++ gsoUdpSeed p.data seed) := by
  intro p net
  have hudp : UdpAggregate d v 20 8 := h.hl4
  have hfit := hudp.hfit
  have hdata : p.data.length = d.length - 20 := length_gsoPkt4_data d v 20 17
  have hseed : gsoUdpSeed p.data seed = _ := gsoUdpSeed_eq (by omega) seed
  have hlen8 : (gsoUdpSeed p.data seed).length = p.data.length := length_gsoUdpSeed hfit
  obtain ⟨hproto, hnet⟩ := @fields_behind6 (gsoIp6 p.ip4.tos (p.ip4.ttl - 1) 17 r.1 r.2 p.data.length) _ rfl
    (gsoUdpSeed p.data seed)
  have hpacket : UdpPacket (net ++ gsoUdpSeed p.data seed) net
      { UdpHdr.ofBytes p.data with cksum := nonzeroCksum seed } (p.data.drop 8) :=
    ⟨by rw [hseed], netLen_ip6 rfl, hproto⟩
  have hoff : UdpOffload (gsoUdpVhdr v 40) net.length v.gsoSize.toNat :=
    ⟨rfl, rfl, decide_eq_true (needsCsum_set v.flags), gsoUdpVhdr_gso v 40, rfl⟩
  refine ⟨hpacket, hoff, handed_udp hpacket hoff (hnet ?_) (gsoSize_pos h.hheader) ?_⟩
  · rw [hlen8]
    exact (BitVec.toNat_ofNat _ _).trans (Nat.mod_eq_of_lt (by omega))
  · rw [List.length_append, length_ip6, hlen8]
    show 48 ≤ _
    omega

/-- The UDP aggregate that is handed over, on the wire. -/
private theorem udp_sendsUpTo (hdev : Offloads device) (h : Aggregate4 .udp g d v 20 8) (hlen : d.length < 65536)
    (huso : g.tunHasUso = true) (r : In6 × In6) :
    SendsUpTo device ans (largestL4 d v 20 8) (GsoEntry.send .udp g d v 20 8 r) := by
  have hudp : UdpAggregate d v 20 8 := h.hl4
  have hfit := hudp.hfit
  have hdata := length_gsoPkt4_data d v 20 17
  have hroute : ¬((!g.tunHasUso) = true ∨ 20 ≠ 20) := by
    rw [huso]
    decide
  rw [show GsoEntry.send .udp g d v 20 8 r = _ from if_neg hroute]
  rw [show GsoEntry.udp.proto = 17 from rfl]
  generalize gsoCalcPseudo6 r.1 r.2 17 _ = seed
  obtain ⟨hpacket, hoff, hhanded⟩ := udp_packet6 h hlen r seed
  have hlen8 : (gsoUdpSeed (gsoPkt4 d v 20 17).data seed).length = (gsoPkt4 d v 20 17).data.length :=
    length_gsoUdpSeed hfit
  refine SendsUpTo.aggregate ans v 8 hdev hhanded (Ip6.version_toBytes rfl _) ?_ hpacket.headersLen (by omega)
    hoff.hstart ?_ ?_
  · rw [List.length_append, length_ip6, hlen8, hdata]
  · intro hnone
    rw [hoff.hgso] at hnone
    exact absurd hnone (by decide)
  · exact fun _ => rfl

/-- The segments that are cut here. -/
private theorem udpSoftware_sendsUpTo (hdev : Offloads device) (hudp : UdpAggregate d v ihl l4Len)
    (hsize : largestL4 d v ihl l4Len ≤ 65535) (r : In6 × In6) :
    SendsUpTo device ans (largestL4 d v ihl l4Len) (GsoEntry.send .udpSoftware g d v ihl l4Len r) := by
  obtain rfl := hudp.hl4
  rw [← length_firstSegment] at hsize
  rw [largestL4, ← length_gsoPkt4_payload d v ihl 8 17]
  exact .segmentLoop hdev (fun _ _ _ _ _ h => buildUdp4to6_length h) (buildUdp4to6_ne_none hsize)

variable (ans) in
/-- **The longest packet of an aggregate.** -/
theorem entry_sendsUpTo (hdev : Offloads device) {entry : GsoEntry} (h : Aggregate4 entry g d v ihl l4Len)
    (hlen : d.length < 65536) (hsize : entry = .tcpSoftware → largestL4 d v ihl l4Len ≤ 65535) (r : In6 × In6) :
    SendsUpTo device ans (largestL4 d v ihl l4Len) (entry.send g d v ihl l4Len r) := by
  have hudp (hudp : UdpAggregate d v ihl l4Len) : largestL4 d v ihl l4Len ≤ 65535 := by
    obtain rfl := hudp.hl4
    have hfit := hudp.hfit
    unfold largestL4 maxSeg
    split <;> omega
  cases entry with
  | tcp => exact tcp_sendsUpTo hdev h hlen r
  | tcpSoftware =>
    have htcp : TcpAggregate d v true ihl l4Len := h.hl4
    have hsize := hsize rfl
    have hdata := length_gsoPkt4_data d v ihl 6
    have hfit := htcp.hfit
    rw [← length_firstSegment] at hsize
    have hl4 : l4Len ≤ (gsoPkt4 d v ihl 6).data.length := by omega
    rw [largestL4, ← length_gsoPkt4_payload d v ihl l4Len 6]
    exact .segmentLoop hdev (fun _ _ _ _ _ hr => buildTcp4to6_length htcp.hmin hl4 hr) (buildTcp4to6_ne_none hsize)
  | udp =>
    have hagg : UdpAggregate d v ihl l4Len := h.hl4
    by_cases hroute : (!g.tunHasUso) = true ∨ ihl ≠ 20
    · rw [send_udp_of_route hroute]
      exact udpSoftware_sendsUpTo hdev hagg (hudp hagg) r
    · obtain ⟨huso, hihl⟩ := not_or.1 hroute
      obtain rfl := not_not.1 hihl
      obtain rfl := hagg.hl4
      exact udp_sendsUpTo hdev h hlen (by simpa using huso) r
  | udpSoftware =>
    have hagg : UdpAggregate d v ihl l4Len := h.hl4
    exact udpSoftware_sendsUpTo hdev hagg (hudp hagg) r

/-- A first segment that is longer than a packet can be is not sent, and nothing else. -/
private theorem sent_tcpSoftware_nil (hsize : 65535 < largestL4 d v ihl l4Len) (r : In6 × In6) :
    sent ans (GsoEntry.send .tcpSoftware g d v ihl l4Len r) = [] := by
  rw [← length_firstSegment] at hsize
  have hnone : ∀ offset isLast nextId, buildTcp4to6 g.endian (gsoPkt4 d v ihl 6)
      (TcpHdr.ofBytes ((gsoPkt4 d v ihl 6).data.take l4Len)) l4Len r.1 r.2 offset isLast nextId
      (((gsoPkt4 d v ihl 6).data.drop l4Len).take v.gsoSize.toNat) = none := fun _ _ _ =>
    if_pos (Nat.add_lt_add_left hsize 40)
  show sent ans (segmentLoop v.gsoSize.toNat (buildTcp4to6 g.endian (gsoPkt4 d v ihl 6)
    (TcpHdr.ofBytes ((gsoPkt4 d v ihl 6).data.take l4Len)) l4Len r.1 r.2) (_ + 1) 0 0
    ((gsoPkt4 d v ihl 6).data.drop l4Len)) = []
  unfold segmentLoop
  dsimp only
  rw [hnone]
  rfl

end Segments

/-! ### The law -/

section Law

variable {v : VnetHdr} {ihl l4Len : Nat}

/-- The aggregate is forwarded with DF clear, and its largest segment is longer than the limit. -/
def Oversize (entry : GsoEntry) (g : Gcfg) (ans : (op : PktOp) → op.Ans) (d : List Byte) (v : VnetHdr) : Prop :=
  ∃ ihl l4Len, Aggregate4 entry g d v ihl l4Len ∧ DfClear d ∧ Forwardable g ans (Ip4.ofBytes d) ∧
    limit6 g < 40 + largestL4 d v ihl l4Len ∧ (entry = .tcpSoftware → largestL4 d v ihl l4Len ≤ 65535)

theorem Aggregate4.unique {entry : GsoEntry} {ihl' l4Len' : Nat} (h : Aggregate4 entry g d v ihl l4Len)
    (h' : Aggregate4 entry g d v ihl' l4Len') : ihl' = ihl ∧ l4Len' = l4Len := by
  obtain rfl := Option.some.inj (h.hip4.symm.trans h'.hip4)
  refine ⟨rfl, ?_⟩
  have hl4 := h.hl4
  have hl4' := h'.hl4
  cases entry with
  | tcp => exact hl4'.hl4.trans hl4.hl4.symm
  | tcpSoftware => exact hl4'.hl4.trans hl4.hl4.symm
  | udp => exact hl4'.hl4.trans hl4.hl4.symm
  | udpSoftware => exact hl4'.hl4.trans hl4.hl4.symm

/-- Whatever a program does, what holds of every packet holds of those it sends. -/
theorem OnlySends.all {α : Type} {P : Option VnetHdr → List Byte → Prop} (h : ∀ vhdr packet, P vhdr packet)
    (prog : PktProg α) : OnlySends P prog := by
  induction prog with
  | done a => trivial
  | call op next ih =>
    refine ⟨?_, ih⟩
    cases op with
    | write vhdr packet => exact h vhdr packet
    | _ => trivial

theorem gsoError4_replies {type code : Byte} {word : BitVec 32} {p : Pkt4} :
    OnlySends Reply4 (gsoError4 g type code word p) :=
  hostSendIcmp4Error_replies.bind fun _ => .done _

/-- `gso_validate_header` has three results. -/
theorem gsoValidateHeader_eq_one {n : Nat} (h : ¬gsoValidateHeader n v ≤ 0) : gsoValidateHeader n v = 1 := by
  have hthree : gsoValidateHeader n v = 0 ∨ gsoValidateHeader n v = -1 ∨ gsoValidateHeader n v = 1 := by
    unfold gsoValidateHeader
    split_ifs <;> simp
  omega

section Accepts

variable {P : Option VnetHdr → List Byte → Prop}

/-- What the entry points have found out before they send anything but an error. -/
private theorem tcp_asks (hsend : ∀ ihl l4Len, Aggregate4 .tcp g d v ihl l4Len → ∀ vhdr packet, P vhdr packet) :
    OnlySends P (gsoTranslateTcp4to6 g d (some v)) := by
  unfold gsoTranslateTcp4to6
  refine .ite (fun _ => .done _) fun hgso => .ite (fun _ => .done _) fun hheader => .ite (fun _ => .done _) fun _ => ?_
  rcases hvalid : gsoValidateIpv4Header g.endian d 6 with _ | ihl
  · trivial
  refine .ite (fun _ => .done _) fun _ => .ite (fun _ => .done _) fun hl4 => ?_
  rw [not_or, not_or, Bool.not_eq_true', Bool.not_eq_false] at hl4
  obtain ⟨hmin, hfit, hvnet⟩ := hl4
  obtain ⟨-, -, -, -, hhdrLen, -⟩ := gsoValidateTransportVnet_iff.1 hvnet
  exact .all (hsend ihl _ ⟨gsoValidateHeader_eq_one hheader, hvalid, ⟨not_not.1 hgso, rfl, Nat.not_lt.1 hmin,
    Nat.not_lt.1 hfit, hhdrLen, fun _ => hvnet⟩⟩) _

private theorem tcpSoftware_asks
    (hsend : ∀ ihl l4Len, Aggregate4 .tcpSoftware g d v ihl l4Len → ∀ vhdr packet, P vhdr packet) :
    OnlySends P (gsoSoftwareSegmentAndSend4to6 g d (some v)) := by
  unfold gsoSoftwareSegmentAndSend4to6
  refine .ite (fun _ => .done _) fun htake => .ite (fun _ => .done _) fun _ => ?_
  rcases hvalid : gsoValidateIpv4Header g.endian d 6 with _ | ihl
  · trivial
  refine .ite (fun _ => .done _) fun hl4 => .ite (fun _ => .done _) fun hvnet => ?_
  rw [not_or, not_not] at htake
  rw [not_or, not_or] at hl4
  rw [not_or, not_and, Bool.not_eq_true', Bool.not_eq_false] at hvnet
  exact .all (hsend ihl _ ⟨gsoValidateHeader_eq_one htake.2, hvalid, ⟨htake.1, rfl, Nat.not_lt.1 hl4.2.1,
    Nat.not_lt.1 hl4.2.2, Nat.not_lt.1 hvnet.1, fun h => hvnet.2 (h.resolve_left (by decide))⟩⟩) _

private theorem udpSoftware_asks (hP : ∀ vhdr packet, Reply4 vhdr packet → P vhdr packet)
    (hsend : ∀ ihl l4Len, Aggregate4 .udpSoftware g d v ihl l4Len → ∀ vhdr packet, P vhdr packet) :
    OnlySends P (gsoSoftwareSegmentAndSendUdp4to6 g d (some v)) := by
  unfold gsoSoftwareSegmentAndSendUdp4to6
  refine .ite (fun _ => .done _) fun htake => ?_
  rcases hvalid : gsoValidateIpv4Header g.endian d 17 with _ | ihl
  · trivial
  rw [not_or, not_not] at htake
  refine .ite (fun _ => .done _) fun hvnet => .ite (fun _ => gsoError4_replies.mono hP) fun _ =>
    .ite (fun _ => .done _) fun hsized => ?_
  rw [not_or, Bool.not_eq_true', Bool.not_eq_false] at hvnet
  rw [effectiveGsoSize_eq htake.2, Bool.not_eq_true', Bool.not_eq_false] at hsized
  exact .all (hsend ihl 8 ⟨gsoValidateHeader_eq_one htake.2, hvalid, ⟨htake.1, rfl, Nat.not_lt.1 hvnet.1, hvnet.2,
    hsized⟩⟩) _

private theorem udp_asks (hP : ∀ vhdr packet, Reply4 vhdr packet → P vhdr packet)
    (hsend : ∀ ihl l4Len, Aggregate4 .udp g d v ihl l4Len → ∀ vhdr packet, P vhdr packet) :
    OnlySends P (gsoTranslateUdp4to6 g d (some v)) := by
  unfold gsoTranslateUdp4to6
  refine .ite (fun _ => .done _) fun hgso => .ite (fun _ => .done _) fun hheader => .ite (fun _ => .done _) fun _ => ?_
  rcases hvalid : gsoValidateIpv4Header g.endian d 17 with _ | ihl
  · trivial
  refine .ite (fun _ => .done _) fun hvnet => .ite (fun _ => gsoError4_replies.mono hP) fun _ =>
    .ite (fun _ => .done _) fun _ => .ite (fun _ => .done _) fun hsized => ?_
  rw [not_or, Bool.not_eq_true', Bool.not_eq_false] at hvnet
  rw [Bool.not_eq_true', Bool.not_eq_false] at hsized
  exact .all (hsend ihl 8 ⟨gsoValidateHeader_eq_one hheader, hvalid, ⟨not_not.1 hgso, rfl, Nat.not_lt.1 hvnet.1,
    hvnet.2, hsized⟩⟩) _

/-- **What an entry point does not take**, it does not send on. -/
theorem entry_refuses {entry : GsoEntry} (h : ¬∃ ihl l4Len, Aggregate4 entry g d v ihl l4Len) :
    OnlySends Reply4 (entry.run g d (some v)) := by
  have hsend : ∀ ihl l4Len, Aggregate4 entry g d v ihl l4Len → ∀ vhdr packet, Reply4 vhdr packet :=
    fun ihl l4Len hagg => absurd ⟨ihl, l4Len, hagg⟩ h
  cases entry with
  | tcp => exact tcp_asks hsend
  | tcpSoftware => exact tcpSoftware_asks hsend
  | udp => exact udp_asks (fun _ _ h => h) hsend
  | udpSoftware => exact udpSoftware_asks (fun _ _ h => h) hsend

end Accepts

theorem gsoMap4to6WithIcmp_replies {p : Pkt4} : OnlySends Reply4 (gsoMap4to6WithIcmp g p) :=
  gsoMap4to6WithIcmp_asks (fun _ => trivial) fun _ _ => hostSendIcmp4Error_replies

variable (g ans) in
/-- The mapper is asked for both addresses of a packet for somebody else. -/
theorem gsoMap4to6WithIcmp_answer (p : Pkt4) :
    (∃ r, (gsoMap4to6WithIcmp g p).answer ans = .ok r) ↔
      p.ip4.dest ≠ g.localAddr4 ∧ Mapped ans p.ip4.dest ∧ Mapped ans p.ip4.src := by
  unfold gsoMap4to6WithIcmp Mapped
  by_cases hdest : p.ip4.dest = g.localAddr4
  · rw [if_pos hdest]
    refine iff_of_false ?_ fun h => h.1 hdest
    rintro ⟨r, hr⟩
    rw [answer_bind] at hr
    cases hr
  rw [if_neg hdest, answer_call, and_iff_right hdest]
  rcases ans (.mapIp4ToIp6 p.ip4.dest) with (_ | _ | _) | dst6
  · simp
  · simp
  · simp
  dsimp only
  rw [answer_call]
  rcases ans (.mapIp4ToIp6 p.ip4.src) with (_ | _ | _) | src6
  · simp
  · simp
  · simp
  · simp

/-- Replies fit. -/
private theorem replies_fit (hdev : Offloads device) {α : Type} {prog : PktProg α} (h : OnlySends Reply4 prog) :
    ∀ out ∈ wire device ans prog, FitsLimit g d out := by
  have hfits : OnlySends (Fits device g d) prog := h.mono fun _ _ h => h.fits hdev
  exact fun _ hout => hfits.wire hout

/-- **An aggregate**: what goes out fits unless DF is clear and the largest segment exceeds the limit. -/
theorem entry_fits (hdev : Offloads device) (entry : GsoEntry) (hmtu : mtuMin ≤ g.mtu) (hlen : d.length < 65536) :
    (∀ out ∈ wire device ans (entry.run g d (some v)), FitsLimit g d out) ↔ ¬Oversize entry g ans d v := by
  by_cases hagg : ∃ ihl l4Len, Aggregate4 entry g d v ihl l4Len
  swap
  · exact iff_of_true (replies_fit hdev (entry_refuses hagg)) fun ⟨ihl, l4Len, h, _⟩ => hagg ⟨ihl, l4Len, h⟩
  obtain ⟨ihl, l4Len, hagg⟩ := hagg
  have hover : Oversize entry g ans d v ↔ DfClear d ∧ Forwardable g ans (Ip4.ofBytes d) ∧
      limit6 g < 40 + largestL4 d v ihl l4Len ∧ (entry = .tcpSoftware → largestL4 d v ihl l4Len ≤ 65535) := by
    constructor
    · rintro ⟨ihl', l4Len', hagg', h⟩
      obtain ⟨rfl, rfl⟩ := hagg.unique hagg'
      exact h
    · exact fun h => ⟨ihl, l4Len, hagg, h⟩
  have hvalid := (gsoValidateIpv4Header_valid hagg.hip4).1
  have hmin := hvalid.hmin
  rw [hover, entry_program hagg hmtu]
  unfold checked4
  rw [gsoPkt4_ip4 hvalid]
  by_cases hbig : (Ip4.ofBytes d).flagsOffset &&& ip4FDf ≠ 0 ∧
      entry.TooBig g (Ip4.ofBytes d) ihl (largestL4 d v ihl l4Len)
  · rw [if_pos hbig]
    exact iff_of_true (replies_fit hdev gsoError4_replies) fun h => hbig.1 h.1
  rw [if_neg hbig]
  by_cases httl : (Ip4.ofBytes d).ttl ≤ 1
  · rw [if_pos httl]
    exact iff_of_true (replies_fit hdev gsoError4_replies) fun h => h.2.1.ttl httl
  rw [if_neg httl, wire_bind]
  simp only [List.mem_append, or_imp, forall_and]
  rw [and_iff_right (replies_fit hdev gsoMap4to6WithIcmp_replies)]
  have hanswer := gsoMap4to6WithIcmp_answer g ans (gsoPkt4 d v ihl entry.proto)
  rw [gsoPkt4_ip4 hvalid] at hanswer
  rcases hmap : (gsoMap4to6WithIcmp g (gsoPkt4 d v ihl entry.proto)).answer ans with handled | r
  · refine iff_of_true (fun _ hmem => absurd hmem List.not_mem_nil) fun h => ?_
    obtain ⟨r, hr⟩ := hanswer.2 ⟨h.2.1.hdest, h.2.1.hmapped⟩
    rw [hmap] at hr
    cases hr
  obtain ⟨hdest, hmapped⟩ := hanswer.1 ⟨r, hmap⟩
  have hforward : Forwardable g ans (Ip4.ofBytes d) := ⟨by rwa [ttl_le_one, not_or] at httl, hdest, hmapped⟩
  rw [and_iff_right hforward]
  show (∀ out ∈ wire device ans (entry.send g d v ihl l4Len r), _) ↔ _
  by_cases hsize : entry = .tcpSoftware → largestL4 d v ihl l4Len ≤ 65535
  swap
  · obtain ⟨rfl, hlong⟩ := Classical.not_imp.1 hsize
    rw [wire, sent_tcpSoftware_nil (Nat.lt_of_not_le hlong)]
    exact iff_of_true (fun _ hmem => absurd hmem List.not_mem_nil) fun h => hsize h.2.2
  obtain ⟨hle, out, hmem, hversion, hmax⟩ := entry_sendsUpTo ans hdev hagg hlen hsize r
  have hlimit := limit6_le (g := g)
  constructor
  · rintro hfits ⟨hdf, hlt, -⟩
    have := (hfits out hmem hversion).2 hdf
    omega
  · intro hfit out hmem _
    have hn := hle.wire hmem
    by_cases hdf : DfClear d
    · have hle : ¬limit6 g < 40 + largestL4 d v ihl l4Len := fun hlt => hfit ⟨hdf, hlt, hsize⟩
      exact ⟨by omega, fun _ => by omega⟩
    · refine ⟨?_, fun h => absurd h hdf⟩
      have hnot : ¬entry.TooBig g (Ip4.ofBytes d) ihl (largestL4 d v ihl l4Len) := fun h => hbig ⟨hdf, h⟩
      have hle : ¬g.mtu < 40 + largestL4 d v ihl l4Len := fun hlt => hnot <| by
        cases entry with
        | tcp => exact hlt
        | tcpSoftware => exact (show g.mtu < ihl + 20 + _ by omega)
        | udp => exact ⟨httl, by omega⟩
        | udpSoftware => exact ⟨httl, by omega⟩
      omega

private theorem wire_dropRefused {len : Nat} {prog : PktProg Bool} :
    wire device ans (dropRefused len prog) = wire device ans prog := by
  unfold dropRefused
  rw [wire_bind]
  cases prog.answer ans <;> exact List.append_nil _

end Law

/-- **The size limit of packets to IPv6**: what goes out for `handle_ip4` and the entry points for aggregates keeps it,
unless an aggregate with DF clear is forwarded with segments that exceed the limit. -/
theorem size_limit6 (device : Device) (hdev : Offloads device) (g : Gcfg) (offload : Bool) (d : List Byte)
    (hlen : d.length < 65536) (vhdr : Option VnetHdr) (ans : (op : PktOp) → op.Ans) (hmtu : mtuMin ≤ g.mtu)
    (hofflink : mtuMin ≤ g.ipv6OfflinkMtu) :
    ((∀ packet ∈ wire device ans (handleIp4 g offload d vhdr), FitsLimit g d packet) ↔
      ¬(offload ∧ ∃ v, vhdr = some v ∧ (Oversize .tcp g ans d v ∨ Oversize .udp g ans d v))) ∧
    ∀ (entry : GsoEntry) (v : VnetHdr),
      (∀ packet ∈ wire device ans (entry.run g d (some v)), FitsLimit g d packet) ↔ ¬Oversize entry g ans d v := by
  refine ⟨?_, fun entry v => entry_fits hdev entry hmtu hlen⟩
  have htcp : ∀ v, Oversize .tcp g ans d v → v.gso = vnetGsoTcpv4 := fun v ⟨_, _, h, _⟩ =>
    (show TcpAggregate d v false _ _ from h.hl4).htype
  have hudp : ∀ v, Oversize .udp g ans d v → v.gso = vnetGsoUdpL4 := fun v ⟨_, _, h, _⟩ =>
    (show UdpAggregate d v _ _ from h.hl4).htype
  have hne : vnetGsoTcpv4 ≠ vnetGsoUdpL4 ∧ vnetGsoTcpv4 ≠ vnetGsoNone ∧ vnetGsoUdpL4 ≠ vnetGsoNone := by decide
  unfold handleIp4
  by_cases hgso : isGso vhdr
  swap
  · rw [if_neg hgso]
    refine iff_of_true (fun _ hout => (plain_fits hdev (limit6_ge hmtu hofflink)).wire hout) ?_
    rintro ⟨-, v, rfl, h⟩
    have hnone : v.gso = vnetGsoNone := by simpa [isGso] using hgso
    rcases h with h | h
    · exact hne.2.1 ((htcp v h).symm.trans hnone)
    · exact hne.2.2 ((hudp v h).symm.trans hnone)
  rw [if_pos hgso, wire_dropRefused]
  obtain ⟨v, rfl⟩ : ∃ v, vhdr = some v := by
    cases vhdr with
    | none => cases hgso
    | some v => exact ⟨v, rfl⟩
  have hone : (∃ w, some v = some w ∧ (Oversize .tcp g ans d w ∨ Oversize .udp g ans d w)) ↔
      Oversize .tcp g ans d v ∨ Oversize .udp g ans d v := by simp
  rw [hone]
  simp only [Option.any_some, decide_eq_true_eq]
  by_cases ht : offload ∧ v.gso = vnetGsoTcpv4
  · rw [if_pos ht, and_iff_right ht.1, or_iff_left fun h => hne.1 (ht.2.symm.trans (hudp v h))]
    exact entry_fits hdev .tcp hmtu hlen
  rw [if_neg ht]
  by_cases hu : offload ∧ v.gso = vnetGsoUdpL4
  · rw [if_pos hu, and_iff_right hu.1, or_iff_right fun h => ht ⟨hu.1, htcp v h⟩]
    exact entry_fits hdev .udp hmtu hlen
  rw [if_neg hu]
  refine iff_of_true (fun _ hmem => absurd hmem List.not_mem_nil) ?_
  rintro ⟨hoff, h | h⟩
  · exact ht ⟨hoff, htcp v h⟩
  · exact hu ⟨hoff, hudp v h⟩

/-- A TUN device that cuts UDP aggregates. -/
def usoGcfg : Gcfg := { vnetGcfg with tunHasUso := true }

/-- A UDP datagram of 1416 zeros with DF clear. -/
def df0Aggregate : List Byte :=
  (Ip4.withCksum .little ⟨0x45, 0, 1444, 0, 0, 64, 17, 0, 0xc0000205, 0xc6336407⟩).toBytes ++
    ((UdpHdr.mk 0x3039 0x35 1424 0x1234).toBytes ++ List.replicate 1416 0)

/-- Two segments, and the longer one becomes a packet of 1296 bytes. -/
def df0UdpGso : VnetHdr := ⟨1, vnetGsoUdpL4, 28, 1248, 20, 6, 0⟩

theorem df0Aggregate_aggregate : Aggregate4 .udp usoGcfg df0Aggregate df0UdpGso 20 8 :=
  ⟨by decide +kernel, by decide +kernel, by decide +kernel, by decide +kernel, by decide +kernel, by decide +kernel,
    by decide +kernel⟩

private theorem df0Aggregate_oversize : Oversize .udp usoGcfg sampleAns df0Aggregate df0UdpGso :=
  ⟨20, 8, df0Aggregate_aggregate, by decide +kernel, ⟨by decide +kernel, by decide +kernel, ⟨_, rfl⟩, ⟨_, rfl⟩⟩,
    by decide +kernel, fun h => by cases h⟩

theorem size_limit6_df0 : ¬∀ packet ∈ wire kernelDevice sampleAns
    (handleIp4 usoGcfg true df0Aggregate (some df0UdpGso)), FitsLimit usoGcfg df0Aggregate packet := by
  intro hfits
  exact (size_limit6 kernelDevice kernelDevice_offloads usoGcfg true df0Aggregate (by decide +kernel)
    (some df0UdpGso) sampleAns (by decide) (by decide)).1.1 hfits
    ⟨rfl, df0UdpGso, rfl, .inr df0Aggregate_oversize⟩

/-- The device sends a packet of 1296 bytes, more than fit to the limit of 1280 for it. -/
theorem size_limit6_exceeded : DfClear df0Aggregate ∧ limit6 usoGcfg = 1280 ∧
    ∃ packet ∈ wire kernelDevice sampleAns (handleIp4 usoGcfg true df0Aggregate (some df0UdpGso)),
      version packet = 6 ∧ packet.length = 1296 := by
  decide +kernel

end Tayga
