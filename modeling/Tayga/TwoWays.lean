import Tayga.WireLaw

/-!
# Aggregates as they are, and cut in software

The two ways an aggregate can take are the same on the wire: what a device makes of the packets that `gso_translate_*`
hands over is what `gso_software_segment_and_send_*` writes, up to what is left to the device (`wire_agrees`).  A TCP
aggregate to IPv4 may be handed over in two parts, full segments with DF set and a tail with DF clear.
-/

namespace Tayga

open Program

variable {g : Gcfg} {d : List Byte} {v : VnetHdr} {ans : (op : PktOp) → op.Ans} {device : Device} {entry : GsoEntry}

theorem Plain.handed {vhdr : Option VnetHdr} {packet : List Byte} (h : Plain vhdr packet) : Handed vhdr packet := by
  obtain rfl : vhdr = none := h
  exact handed_none packet

/-- The outcome does not depend on what is left to the device. -/
private theorem Outcome.ofWritten_alike {family : Byte} {icmpAt : Nat} {l l' : List (List Byte)}
    (h : List.Forall₂ Alike l l') (hat : ∀ packet, version packet = family → netLen packet = icmpAt) :
    ofWritten family icmpAt l = ofWritten family icmpAt l' := by
  cases h with
  | nil => rfl
  | @cons a b l l' hab _ =>
    unfold ofWritten
    dsimp only
    rw [hab.version]
    by_cases hfamily : version b = family
    · have htype := hab.getU8 (show 0 < 16 by decide)
      have hcode := hab.getU8 (show 1 < 16 by decide)
      rw [hat b hfamily] at htype hcode
      rw [if_pos hfamily, if_pos hfamily, hcode, show getU8 a icmpAt = getU8 b icmpAt from htype]
    · rw [if_neg hfamily, if_neg hfamily]

/-- The software emitter that cuts what an entry point sends as it is. -/
def GsoEntry.software : GsoEntry → GsoEntry
  | .tcp | .tcpSoftware => .tcpSoftware
  | .udp | .udpSoftware => .udpSoftware

/-- Two tests in front of the same, when what is behind them says which tests have passed. -/
private theorem front_iff {α : Type} {a b : Prop} [Decidable a] [Decidable b] {big rest : α} (ha : rest = big → a)
    (hb : rest = big → b) : (if a then big else rest) = (if b then big else rest) ↔ (a ↔ b) := by
  by_cases hpa : a
  · rw [if_pos hpa]
    refine ⟨fun h => iff_of_true hpa ?_, fun h => (if_pos (h.1 hpa)).symm⟩
    by_contra hnot
    rw [if_neg hnot] at h
    exact hnot (hb h.symm)
  · rw [if_neg hpa]
    refine ⟨fun h => iff_of_false hpa fun hpb => hpa (ha ?_), fun h => (if_neg fun hpb => hpa (h.2 hpb)).symm⟩
    rw [h, if_pos hpb]

section Ways4

variable {p : Pkt4} {tooBig : Prop} [Decidable tooBig] {f : In6 × In6 → PktProg Bool}
  {packets packets' : In6 × In6 → List (List Byte)} {ihl l4Len : Nat}

private theorem hostSendIcmp4Error_plain {type code : Byte} {word : BitVec 32} (hp : p.dataProto ≠ 1) :
    OnlySends Plain (hostSendIcmp4Error g type code word p) := by
  rw [hostSendIcmp4Error_eq hp]
  exact OnlySends.emit rfl

private theorem gsoError4_plain {type code : Byte} {word : BitVec 32} (hp : p.dataProto ≠ 1) :
    OnlySends Plain (gsoError4 g type code word p) := (hostSendIcmp4Error_plain hp).bind fun _ => .done _

private theorem gsoMap4to6WithIcmp_plain (hp : p.dataProto ≠ 1) : OnlySends Plain (gsoMap4to6WithIcmp g p) :=
  gsoMap4to6WithIcmp_asks (fun _ => trivial) fun _ _ => hostSendIcmp4Error_plain hp

/-- What is sent behind the checks. -/
private theorem checked4_sends {P : Option VnetHdr → List Byte → Prop} (hp : p.dataProto ≠ 1)
    (hplain : ∀ vhdr packet, Plain vhdr packet → P vhdr packet) (hf : ∀ r, OnlySends P (f r)) :
    OnlySends P (checked4 g p tooBig f) := by
  unfold checked4
  refine .ite (fun _ => (gsoError4_plain hp).mono hplain) fun _ => .ite (fun _ => (gsoError4_plain hp).mono hplain)
    fun _ => ((gsoMap4to6WithIcmp_plain hp).mono hplain).bind fun r => ?_
  cases r with
  | error handled => exact .done _
  | ok r => exact hf r

variable (g ans p tooBig) in
/-- What goes out behind the checks, if that is `packets`. -/
def checkedPackets4 (packets : In6 × In6 → List (List Byte)) : List (List Byte) :=
  if p.ip4.flagsOffset &&& ip4FDf ≠ 0 ∧ tooBig then wire onWire ans (gsoError4 g 3 4 (fragMtu g) p)
  else if p.ip4.ttl ≤ 1 then wire onWire ans (gsoError4 g 11 0 0 p)
  else wire onWire ans (gsoMap4to6WithIcmp g p) ++
    match (gsoMap4to6WithIcmp g p).answer ans with
    | .error _ => []
    | .ok r => packets r

private theorem wire_checked4 : wire onWire ans (checked4 g p tooBig f) =
    checkedPackets4 g ans p tooBig fun r => wire onWire ans (f r) := by
  unfold checked4 checkedPackets4
  split
  · rfl
  split
  · rfl
  rw [wire_bind]
  cases (gsoMap4to6WithIcmp g p).answer ans <;> rfl

private theorem software_plain (entry : GsoEntry) (r : In6 × In6) :
    OnlySends Plain (entry.software.send g d v ihl l4Len r) := by
  cases entry with
  | tcp | tcpSoftware => exact segmentLoop_sends (fun _ _ _ _ _ _ => rfl) _ _ _ _
  | udp | udpSoftware => exact segmentLoop_sends (fun _ _ _ _ _ _ => rfl) _ _ _ _

/-- A software emitter takes what the entry point takes. -/
theorem Aggregate4.software (h : Aggregate4 entry g d v ihl l4Len) : Aggregate4 entry.software g d v ihl l4Len := by
  obtain ⟨hheader, hip4, hl4⟩ := h
  cases entry with
  | tcp =>
    have htcp : TcpAggregate d v false ihl l4Len := hl4
    exact ⟨hheader, hip4, { htcp with hvnet := fun _ => htcp.hvnet (.inl rfl) }⟩
  | tcpSoftware | udp | udpSoftware => exact ⟨hheader, hip4, hl4⟩

/-- The segments are the same both ways. -/
private theorem packets4_software (entry : GsoEntry) (r : In6 × In6) :
    packets4 entry.software g d v ihl l4Len r = packets4 entry g d v ihl l4Len r := by
  cases entry <;> rfl

private theorem Aggregate4.largestL4_le (h : Aggregate4 entry g d v ihl l4Len) (hlen : d.length < 65536) :
    largestL4 d v ihl l4Len ≤ 65535 := by
  have hfit : ihl + l4Len ≤ d.length := by
    have hl4 := h.hl4
    cases entry with
    | tcp | tcpSoftware => exact TcpAggregate.hfit hl4
    | udp | udpSoftware => exact UdpAggregate.hfit hl4
  unfold largestL4 maxSeg
  split <;> omega

/-- What goes out for an aggregate from IPv4, with all writes going through. -/
private theorem wire_run4 (hans : Delivers ans) (hmtu : mtuMin ≤ g.mtu) (h : Aggregate4 entry g d v ihl l4Len)
    (hlen : d.length < 65536) : wire onWire ans (entry.run g d (some v)) =
      checkedPackets4 g ans (gsoPkt4 d v ihl entry.proto)
        (entry.TooBig g (Ip4.ofBytes d) ihl (largestL4 d v ihl l4Len)) (packets4 entry g d v ihl l4Len) := by
  rw [entry_program h hmtu, wire_checked4]
  exact congrArg _ (funext fun r => (send_inTurn h hlen r).hall fun packet _ => hans none packet)

variable (ans) in
/-- A device makes of it the same, up to what is left to it. -/
private theorem wire_run4_alike (hdev : Offloads device) (hmtu : mtuMin ≤ g.mtu) (h : Aggregate4 entry g d v ihl l4Len)
    (hlen : d.length < 65536) :
    List.Forall₂ Alike (wire device ans (entry.run g d (some v))) (wire onWire ans (entry.run g d (some v))) := by
  rw [entry_program h hmtu]
  exact hdev.wire_alike (checked4_sends entry.isTransport_proto.ne_icmp.1 (fun _ _ h => h.handed)
    fun r => send_handed h hlen r)

variable (ans) in
/-- What a software emitter writes goes out as it is. -/
theorem written_run4 (hmtu : mtuMin ≤ g.mtu) (h : Aggregate4 entry g d v ihl l4Len) :
    written ans (entry.software.run g d (some v)) = wire onWire ans (entry.software.run g d (some v)) := by
  rw [entry_program h.software hmtu]
  exact (onWire_offloads.wire_plain (checked4_sends entry.software.isTransport_proto.ne_icmp.1 (fun _ _ h => h)
    (software_plain entry))).symm

/-- **An aggregate from IPv4** is the same on the wire both ways, exactly if their size tests agree or DF is clear. -/
theorem ways4 (hdev : Offloads device) (hans : Delivers ans) (hmtu : mtuMin ≤ g.mtu)
    (h : Aggregate4 entry g d v ihl l4Len) (hlen : d.length < 65536) :
    List.Forall₂ Alike (wire device ans (entry.run g d (some v))) (written ans (entry.software.run g d (some v))) ↔
      ((Ip4.ofBytes d).flagsOffset &&& ip4FDf ≠ 0 →
        (entry.TooBig g (Ip4.ofBytes d) ihl (largestL4 d v ihl l4Len) ↔
          entry.software.TooBig g (Ip4.ofBytes d) ihl (largestL4 d v ihl l4Len))) := by
  obtain ⟨hvalid, -⟩ := gsoValidateIpv4Header_valid h.hip4
  have hip4 := gsoPkt4_ip4 (v := v) hvalid
  have hproto : entry.software.proto = entry.proto := by cases entry <;> rfl
  have hp : (gsoPkt4 d v ihl entry.proto).dataProto ≠ 1 := entry.isTransport_proto.ne_icmp.1
  have hsize := h.largestL4_le hlen
  -- the fast path, as the software emitter behind the tests of the entry point
  have hrun : wire onWire ans (entry.run g d (some v)) = written ans (checked4 g (gsoPkt4 d v ihl entry.proto)
      (entry.TooBig g (Ip4.ofBytes d) ihl (largestL4 d v ihl l4Len)) (entry.software.send g d v ihl l4Len)) := by
    have hplain : OnlySends Plain (checked4 g (gsoPkt4 d v ihl entry.proto)
        (entry.TooBig g (Ip4.ofBytes d) ihl (largestL4 d v ihl l4Len)) (entry.software.send g d v ihl l4Len)) :=
      checked4_sends hp (fun _ _ h => h) (software_plain entry)
    rw [wire_run4 hans hmtu h hlen, ← onWire_offloads.wire_plain hplain, wire_checked4]
    refine congrArg _ (funext fun r => ?_)
    rw [← packets4_software]
    exact ((send_inTurn h.software hlen r).hall fun packet _ => hans none packet).symm
  have hsoftware : written ans (entry.software.run g d (some v)) = written ans (checked4 g (gsoPkt4 d v ihl entry.proto)
      (entry.software.TooBig g (Ip4.ofBytes d) ihl (largestL4 d v ihl l4Len))
      (entry.software.send g d v ihl l4Len)) := by
    rw [entry_program h.software hmtu, hproto]
  have halike := wire_run4_alike ans hdev hmtu h hlen
  rw [hrun] at halike
  rw [hsoftware, ← and_congr_right_iff]
  constructor
  · intro heq
    have hchecks : ∀ tooBig [Decidable tooBig], Checks4 g ans (gsoPkt4 d v ihl entry.proto) tooBig
        (largestL4 d v ihl l4Len) (checked4 g (gsoPkt4 d v ihl entry.proto) tooBig
          (entry.software.send g d v ihl l4Len)) := fun _ =>
      ⟨_, ⟨fun _ => rfl, send_version entry.software, send_ne_nil h.software⟩, rfl⟩
    have hat : ∀ packet, version packet = 4 → netLen packet = 20 := fun packet hversion => if_pos hversion
    have hout : outcome4 ans _ = outcome4 ans _ :=
      (Outcome.ofWritten_alike halike hat).symm.trans (Outcome.ofWritten_alike heq hat)
    have hbig : ∀ entry : GsoEntry, ¬(Ip4.ofBytes d).ttl ≤ 1 → g.mtu < 40 + largestL4 d v ihl l4Len →
      entry.TooBig g (Ip4.ofBytes d) ihl (largestL4 d v ihl l4Len) := fun _ => GsoEntry.tooBig_of_exceeds hvalid.hmin
    rw [(hchecks _).outcome hp hsize (by rw [hip4]; exact hbig entry),
      (hchecks _).outcome hp hsize (by rw [hip4]; exact hbig entry.software), hip4] at hout
    -- behind the size tests, only a segment beyond the MTU is refused with the same error
    have hrest : ∀ entry : GsoEntry,
        (if (Ip4.ofBytes d).ttl = 0 ∨ (Ip4.ofBytes d).ttl = 1 then .error 11 0
          else if (Ip4.ofBytes d).dest = g.localAddr4 then .error 3 2
          else mapOutcome4 g ans (Ip4.ofBytes d) (largestL4 d v ihl l4Len)) = Outcome.error 3 4 →
        (Ip4.ofBytes d).flagsOffset &&& ip4FDf ≠ 0 ∧
          entry.TooBig g (Ip4.ofBytes d) ihl (largestL4 d v ihl l4Len) := by
      intro entry hrest
      by_cases httl : (Ip4.ofBytes d).ttl = 0 ∨ (Ip4.ofBytes d).ttl = 1
      · rw [if_pos httl] at hrest
        cases hrest
      rw [if_neg httl] at hrest
      by_cases hdest : (Ip4.ofBytes d).dest = g.localAddr4
      · rw [if_pos hdest] at hrest
        cases hrest
      rw [if_neg hdest, mapOutcome4_tooBig] at hrest
      exact ⟨hrest.2.1.2, hbig entry (fun h => httl (ttl_le_one.1 h)) hrest.2.2⟩
    exact (front_iff (hrest entry) (hrest entry.software)).1 hout
  · intro hagree
    rw [← hip4] at hagree
    rw [← hip4] at halike ⊢
    rwa [show checked4 g (gsoPkt4 d v ihl entry.proto) _ _ = _ from if_congr hagree rfl rfl] at halike

/-- The condition, spelled out: only the software emitter of TCP counts IPv4 options. -/
private theorem tests4_iff (hihl : 20 ≤ ihl) {h : Ip4} {size : Nat} :
    (entry.TooBig g h ihl size ↔ entry.software.TooBig g h ihl size) ↔
    (entry = .tcp → 40 + size ≤ g.mtu → ihl + 20 + size ≤ g.mtu) := by
  cases entry with
  | tcp =>
    show (g.mtu < 40 + size ↔ g.mtu < ihl + 20 + size) ↔ _
    simp only [forall_const]
    omega
  | tcpSoftware => exact iff_of_true Iff.rfl fun h => absurd h (by decide)
  | udp => exact iff_of_true Iff.rfl fun h => absurd h (by decide)
  | udpSoftware => exact iff_of_true Iff.rfl fun h => absurd h (by decide)

end Ways4

section Ways6

variable {p : Pkt6} {tooBig : Prop} [Decidable tooBig] {f : In4 × In4 → PktProg Bool}
  {packets packets' : In4 × In4 → List (List Byte)} {l4Len : Nat}

private theorem hostSendIcmp6Error_plain {type code : Byte} {word : BitVec 32} (hp : p.dataProto ≠ 58) :
    OnlySends Plain (hostSendIcmp6Error g type code word p) := by
  rw [hostSendIcmp6Error_eq hp]
  exact OnlySends.emit rfl

theorem gsoError6_plain {type code : Byte} {word : BitVec 32} (hp : p.dataProto ≠ 58) :
    OnlySends Plain (gsoError6 g type code word p) := (hostSendIcmp6Error_plain hp).bind fun _ => .done _

theorem gsoMap6to4WithIcmp_plain (hp : p.dataProto ≠ 58) : OnlySends Plain (gsoMap6to4WithIcmp g p) :=
  gsoMap6to4WithIcmp_asks (fun _ _ => trivial) fun _ _ _ _ => hostSendIcmp6Error_plain hp

theorem checked6_sends {P : Option VnetHdr → List Byte → Prop} (hp : p.dataProto ≠ 58)
    (hplain : ∀ vhdr packet, Plain vhdr packet → P vhdr packet) (hf : ∀ r, OnlySends P (f r)) :
    OnlySends P (checked6 g p tooBig f) := by
  unfold checked6
  refine .ite (fun _ => (gsoError6_plain hp).mono hplain) fun _ => .ite (fun _ => (gsoError6_plain hp).mono hplain)
    fun _ => ((gsoMap6to4WithIcmp_plain hp).mono hplain).bind fun r => ?_
  cases r with
  | error handled => exact .done _
  | ok r => exact hf r

variable (g ans p tooBig) in
/-- What goes out behind the checks, if that is `packets`. -/
def checkedPackets6 (packets : In4 × In4 → List (List Byte)) : List (List Byte) :=
  if tooBig then wire onWire ans (gsoError6 g 2 0 (BitVec.ofNat 32 g.mtu) p)
  else if p.ip6.hopLimit ≤ 1 then wire onWire ans (gsoError6 g 3 0 0 p)
  else wire onWire ans (gsoMap6to4WithIcmp g p) ++
    match (gsoMap6to4WithIcmp g p).answer ans with
    | .error _ => []
    | .ok r => packets r

private theorem wire_checked6 : wire onWire ans (checked6 g p tooBig f) =
    checkedPackets6 g ans p tooBig fun r => wire onWire ans (f r) := by
  unfold checked6 checkedPackets6
  split
  · rfl
  split
  · rfl
  rw [wire_bind]
  cases (gsoMap6to4WithIcmp g p).answer ans <;> rfl

/-- Fewer packets behind the checks. -/
private theorem checkedPackets6_le (h : ∀ r, packets r <+: packets' r) :
    checkedPackets6 g ans p tooBig packets <+: checkedPackets6 g ans p tooBig packets' := by
  unfold checkedPackets6
  split
  · exact List.prefix_rfl
  split
  · exact List.prefix_rfl
  rw [List.prefix_append_right_inj]
  cases (gsoMap6to4WithIcmp g p).answer ans with
  | error handled => exact List.prefix_rfl
  | ok r => exact h r

/-- The same packets behind the checks. -/
private theorem checkedPackets6_congr {P : List Byte → Prop}
    (h : ∀ r, (∀ packet ∈ packets' r, P packet) → packets r = packets' r)
    (hP : ∀ packet ∈ checkedPackets6 g ans p tooBig packets', P packet) :
    checkedPackets6 g ans p tooBig packets = checkedPackets6 g ans p tooBig packets' := by
  unfold checkedPackets6 at hP ⊢
  split
  · rfl
  next hbig =>
  rw [if_neg hbig] at hP
  split
  · rfl
  next hhops =>
  rw [if_neg hhops] at hP
  cases hr : (gsoMap6to4WithIcmp g p).answer ans with
  | error handled => rfl
  | ok r =>
    rw [hr] at hP
    exact congrArg _ (h r fun packet hmem => hP packet (List.mem_append_right _ hmem))

private theorem software6_plain (entry : GsoEntry) (r : In4 × In4) :
    OnlySends Plain (entry.software.send6 g d v l4Len r) := by
  have hreserve : ∀ count, OnlySends Plain (reserveSegments count) := fun _ =>
    .ite (fun _ => .done _) fun _ => ⟨trivial, fun _ => trivial⟩
  cases entry with
  | tcp | tcpSoftware => exact (hreserve _).bind fun _ => segmentLoop_sends (fun _ _ _ _ _ _ => rfl) _ _ _ _
  | udp | udpSoftware => exact (hreserve _).bind fun _ => segmentLoop_sends (fun _ _ _ _ _ _ => rfl) _ _ _ _

theorem Aggregate6.software (h : Aggregate6 entry d v l4Len) : Aggregate6 entry.software d v l4Len := by
  obtain ⟨hheader, hip6, hl4⟩ := h
  cases entry with
  | tcp =>
    have htcp : TcpAggregate6 d v false l4Len := hl4
    exact ⟨hheader, hip6, { htcp with hvnet := fun _ => htcp.hvnet (.inl rfl) }⟩
  | tcpSoftware | udp | udpSoftware => exact ⟨hheader, hip6, hl4⟩

private theorem packets6_software (entry : GsoEntry) (r : In4 × In4) :
    packets6 entry.software g ans d v l4Len r = packets6 entry g ans d v l4Len r := by
  cases entry <;> rfl

private theorem wire_entry6 (hmtu : mtuMin ≤ g.mtu) (hmax : g.mtu < 65536) (h : Aggregate6 entry d v l4Len) :
    wire onWire ans (entry.run6 g d (some v)) =
      checkedPackets6 g ans (gsoPkt6 d v entry.proto) (entry.TooBig6 g (Ip6.ofBytes d) (largestL4 d v 40 l4Len))
        fun r => wire onWire ans (entry.send6 g d v l4Len r) := by
  rw [entry6_program h hmtu hmax, wire_checked6]

/-- What goes out for an aggregate from IPv6, with all writes going through. -/
private theorem wire_run6 (hans : Delivers ans) (hvnet : 0 < g.vnetHdrSz) (hmtu : mtuMin ≤ g.mtu) (hmax : g.mtu < 65536)
    (h : Aggregate6 entry d v l4Len) : wire onWire ans (entry.run6 g d (some v)) =
      checkedPackets6 g ans (gsoPkt6 d v entry.proto)
        (entry.TooBig6 g (Ip6.ofBytes d) (largestL4 d v 40 l4Len)) (packets6 entry g ans d v l4Len) := by
  rw [wire_entry6 hmtu hmax h]
  exact congrArg _ (funext fun r => (send6_inTurn hvnet h r).hall fun packet _ => hans none packet)

variable (ans) in
private theorem wire_run6_alike (hdev : Offloads device) (hmtu : mtuMin ≤ g.mtu) (hmax : g.mtu < 65536)
    (h : Aggregate6 entry d v l4Len) :
    List.Forall₂ Alike (wire device ans (entry.run6 g d (some v))) (wire onWire ans (entry.run6 g d (some v))) := by
  rw [entry6_program h hmtu hmax]
  exact hdev.wire_alike (checked6_sends entry.isTransport_proto.ne_icmp.2 (fun _ _ h => h.handed)
    fun r => send6_handed h r)

variable (ans) in
theorem written_run6 (hmtu : mtuMin ≤ g.mtu) (hmax : g.mtu < 65536) (h : Aggregate6 entry d v l4Len) :
    written ans (entry.software.run6 g d (some v)) = wire onWire ans (entry.software.run6 g d (some v)) := by
  rw [entry6_program h.software hmtu hmax]
  exact (onWire_offloads.wire_plain (checked6_sends entry.software.isTransport_proto.ne_icmp.2 (fun _ _ h => h)
    (software6_plain entry))).symm

/-- **An aggregate from IPv6** is the same on the wire both ways, exactly if their size tests agree. -/
theorem ways6 (hdev : Offloads device) (hans : Delivers ans) (hvnet : 0 < g.vnetHdrSz) (hmtu : mtuMin ≤ g.mtu)
    (hmax : g.mtu < 65536) (h : Aggregate6 entry d v l4Len) :
    List.Forall₂ Alike (wire device ans (entry.run6 g d (some v))) (written ans (entry.software.run6 g d (some v))) ↔
      (entry.TooBig6 g (Ip6.ofBytes d) (largestL4 d v 40 l4Len) ↔
        entry.software.TooBig6 g (Ip6.ofBytes d) (largestL4 d v 40 l4Len)) := by
  have hip6 : (gsoPkt6 d v entry.proto).ip6 = Ip6.ofBytes d := gsoPkt6_ip6 h.length
  have hproto : entry.software.proto = entry.proto := by cases entry <;> rfl
  have hp : (gsoPkt6 d v entry.proto).dataProto ≠ 58 := entry.isTransport_proto.ne_icmp.2
  have hrun : wire onWire ans (entry.run6 g d (some v)) = written ans (checked6 g (gsoPkt6 d v entry.proto)
      (entry.TooBig6 g (Ip6.ofBytes d) (largestL4 d v 40 l4Len)) (entry.software.send6 g d v l4Len)) := by
    have hplain : OnlySends Plain (checked6 g (gsoPkt6 d v entry.proto)
        (entry.TooBig6 g (Ip6.ofBytes d) (largestL4 d v 40 l4Len)) (entry.software.send6 g d v l4Len)) :=
      checked6_sends hp (fun _ _ h => h) (software6_plain entry)
    rw [wire_run6 hans hvnet hmtu hmax h, ← onWire_offloads.wire_plain hplain, wire_checked6]
    refine congrArg _ (funext fun r => ?_)
    rw [← packets6_software]
    exact ((send6_inTurn hvnet h.software r).hall fun packet _ => hans none packet).symm
  have hsoftware : written ans (entry.software.run6 g d (some v)) = written ans (checked6 g (gsoPkt6 d v entry.proto)
      (entry.software.TooBig6 g (Ip6.ofBytes d) (largestL4 d v 40 l4Len)) (entry.software.send6 g d v l4Len)) := by
    rw [entry6_program h.software hmtu hmax, hproto]
  have halike := wire_run6_alike ans hdev hmtu hmax h
  rw [hrun] at halike
  rw [hsoftware]
  constructor
  · intro heq
    have hchecks : ∀ tooBig [Decidable tooBig], Checks6 g ans (gsoPkt6 d v entry.proto) tooBig
        (largestL4 d v 40 l4Len) (checked6 g (gsoPkt6 d v entry.proto) tooBig
          (entry.software.send6 g d v l4Len)) := fun _ =>
      ⟨_, ⟨fun _ => rfl, send6_version entry.software, send6_ne_nil h.software⟩, rfl⟩
    have hat : ∀ packet, version packet = 6 → netLen packet = 40 := fun packet hversion =>
      if_neg (by rw [hversion]; decide)
    have hout : outcome6 ans _ = outcome6 ans _ :=
      (Outcome.ofWritten_alike halike hat).symm.trans (Outcome.ofWritten_alike heq hat)
    rw [(hchecks _).outcome hp hmax (by rw [hip6]; exact GsoEntry.tooBig6_of_exceeds),
      (hchecks _).outcome hp hmax (by rw [hip6]; exact GsoEntry.tooBig6_of_exceeds), hip6] at hout
    have hrest : ∀ entry : GsoEntry,
        (if (Ip6.ofBytes d).hopLimit = 0 ∨ (Ip6.ofBytes d).hopLimit = 1 then .error 3 0
          else if (Ip6.ofBytes d).dest = g.localAddr6 then .error 4 1
          else mapOutcome6 g ans (Ip6.ofBytes d) (largestL4 d v 40 l4Len)) = Outcome.error 2 0 →
        entry.TooBig6 g (Ip6.ofBytes d) (largestL4 d v 40 l4Len) := by
      intro entry hrest
      by_cases hhops : (Ip6.ofBytes d).hopLimit = 0 ∨ (Ip6.ofBytes d).hopLimit = 1
      · rw [if_pos hhops] at hrest
        cases hrest
      rw [if_neg hhops] at hrest
      by_cases hdest : (Ip6.ofBytes d).dest = g.localAddr6
      · rw [if_pos hdest] at hrest
        cases hrest
      rw [if_neg hdest, mapOutcome6_tooBig] at hrest
      exact GsoEntry.tooBig6_of_exceeds (fun h => hhops (ttl_le_one.1 h)) hrest.2
    exact (front_iff (hrest entry) (hrest entry.software)).1 hout
  · intro hagree
    rwa [show checked6 g (gsoPkt6 d v entry.proto) _ _ = _ from if_congr hagree rfl rfl] at halike

/-- What `gso_translate_tcp_6to4` does not take. -/
theorem tcp6_refuses (h : ¬∃ l4Len, Aggregate6 .tcp d v l4Len) :
    gsoTranslateTcp6to4 g d (some v) = .done false := by
  unfold gsoTranslateTcp6to4
  refine ite_eq_left_iff.2 fun hgso => ite_eq_left_iff.2 fun hheader => ite_eq_left_iff.2 fun hip6 =>
    ite_eq_left_iff.2 fun hl4 => absurd ⟨tcpHdrLen (d.drop 40), ?_⟩ h
  rw [not_or, Bool.not_eq_true', Bool.not_eq_false] at hip6
  rw [not_or, not_or, Bool.not_eq_true', Bool.not_eq_false] at hl4
  obtain ⟨hmin, hfit, hvnet⟩ := hl4
  obtain ⟨-, -, -, -, hhdrLen, -⟩ := gsoValidateTransportVnet_iff.1 hvnet
  exact ⟨gsoValidateHeader_eq_one hheader, hip6.2, not_not.1 hgso, rfl, Nat.not_lt.1 hmin, Nat.not_lt.1 hfit, hhdrLen,
    fun _ => hvnet⟩

variable (ans) in
/-- **Behind the same checks**, the software emitter of TCP writes in turn what the fast path hands over. -/
theorem tcp_software_inTurn6 (hvnet : 0 < g.vnetHdrSz) (hmtu : mtuMin ≤ g.mtu) (hmax : g.mtu < 65536)
    (h : Aggregate6 .tcp d v l4Len) :
    written ans (gsoSoftwareSegmentAndSend6to4 g d (some v)) <+: wire onWire ans (gsoTranslateTcp6to4 g d (some v)) ∧
    ((∀ packet ∈ wire onWire ans (gsoTranslateTcp6to4 g d (some v)), (0 : Int) < ans (.write none packet)) →
      written ans (gsoSoftwareSegmentAndSend6to4 g d (some v)) =
        wire onWire ans (gsoTranslateTcp6to4 g d (some v))) := by
  have hfast : wire onWire ans (gsoTranslateTcp6to4 g d (some v)) = _ := wire_entry6 hmtu hmax h
  have hslow : written ans (gsoSoftwareSegmentAndSend6to4 g d (some v)) = _ :=
    (written_run6 ans hmtu hmax h).trans (wire_entry6 hmtu hmax h.software)
  have hsends (r : In4 × In4) : wire onWire ans (GsoEntry.tcpSoftware.send6 g d v l4Len r) <+:
      wire onWire ans (GsoEntry.tcp.send6 g d v l4Len r) ∧
      ((∀ packet ∈ wire onWire ans (GsoEntry.tcp.send6 g d v l4Len r), (0 : Int) < ans (.write none packet)) →
        wire onWire ans (GsoEntry.tcpSoftware.send6 g d v l4Len r) =
          wire onWire ans (GsoEntry.tcp.send6 g d v l4Len r)) := by
    by_cases hlong : 65535 < 20 + l4Len + ((d.drop 40).drop l4Len).length
    · rw [show GsoEntry.send6 .tcp g d v l4Len r = GsoEntry.send6 .tcpSoftware g d v l4Len r from if_pos hlong]
      exact ⟨List.prefix_rfl, fun _ => rfl⟩
    · rw [tcp_wire6 hvnet h hlong r]
      have hturn : SendsInTurn ans _ _ := send6_inTurn hvnet h.software r
      exact ⟨hturn.hfront, hturn.hall⟩
  rw [hslow, hfast]
  exact ⟨checkedPackets6_le fun r => (hsends r).1, checkedPackets6_congr fun r => (hsends r).2⟩

/-- The condition, spelled out: the fast path of UDP tests the hop limit first, and its software emitter the size. -/
private theorem tests6_iff {h : Ip6} {size : Nat} : (entry.TooBig6 g h size ↔ entry.software.TooBig6 g h size) ↔
    (entry = .udp → h.hopLimit ≤ 1 → 40 + size ≤ g.mtu) := by
  cases entry with
  | udp =>
    show (¬h.hopLimit ≤ 1 ∧ g.mtu < 40 + size ↔ g.mtu < 40 + size) ↔ _
    rw [and_iff_right_iff_imp]
    exact ⟨fun h _ hhops => Nat.not_lt.1 fun hlt => h hlt hhops, fun h hlt hhops => (h rfl hhops).not_gt hlt⟩
  | tcp => exact iff_of_true Iff.rfl fun h => absurd h (by decide)
  | tcpSoftware => exact iff_of_true Iff.rfl fun h => absurd h (by decide)
  | udpSoftware => exact iff_of_true Iff.rfl fun h => absurd h (by decide)

end Ways6

/-- **TCP aggregates to IPv4: the fast path is the slow one.**  What goes out for an aggregate that
`gso_translate_tcp_6to4` accepts, cut as a device does, is what `gso_software_segment_and_send_6to4` writes.  Where a
write of that fails, it writes the packets in front.  A device differs in what is left to it. -/
theorem tcp_paths_agree6 (device : Device) (hdev : Offloads device) (g : Gcfg) (ans : (op : PktOp) → op.Ans)
    (hvnet : 0 < g.vnetHdrSz) (hmtu : mtuMin ≤ g.mtu) (hmax : g.mtu < 65536) (d : List Byte) (v : VnetHdr)
    (haccept : (gsoTranslateTcp6to4 g d (some v)).answer ans = true) :
    let fast := wire onWire ans (gsoTranslateTcp6to4 g d (some v))
    let slow := written ans (gsoSoftwareSegmentAndSend6to4 g d (some v))
    slow <+: fast ∧ ((∀ packet ∈ fast, (0 : Int) < ans (.write none packet)) → slow = fast) ∧
    List.Forall₂ Alike (wire device ans (gsoTranslateTcp6to4 g d (some v))) fast := by
  obtain ⟨l4Len, h⟩ : ∃ l4Len, Aggregate6 .tcp d v l4Len := by
    by_contra hnot
    rw [tcp6_refuses hnot] at haccept
    cases haccept
  obtain ⟨hfront, hall⟩ := tcp_software_inTurn6 ans hvnet hmtu hmax h
  exact ⟨hfront, hall, wire_run6_alike ans hdev hmtu hmax h⟩

/-- A TCP aggregate from IPv6: a segment of 1300 bytes and one of 100. -/
def tcpAggregate6 : List Byte :=
  (Ip6.mk 0x60000000 1420 6 64 0x20010db80000000000000000c0000205 0x0064ff9b0000000000000000c0000201).toBytes ++
    ((TcpHdr.mk 0x3039 0x50 0xffffff00 7 0x50 0x99 512 0x1234 0 []).toBytes ++ List.replicate 1400 0)

/-- The virtio header of it. -/
def tcpGso6 : VnetHdr := ⟨1, vnetGsoTcpv6, 60, 1300, 40, 16, 0⟩

/-- It is handed over in two parts. -/
theorem tcp_paths_agree6_split :
    written frameAns (gsoSoftwareSegmentAndSend6to4 vnetGcfg tcpAggregate6 (some tcpGso6)) =
      wire onWire frameAns (gsoTranslateTcp6to4 vnetGcfg tcpAggregate6 (some tcpGso6)) ∧
    List.Forall₂ Alike (wire kernelDevice frameAns (gsoTranslateTcp6to4 vnetGcfg tcpAggregate6 (some tcpGso6)))
      (wire onWire frameAns (gsoTranslateTcp6to4 vnetGcfg tcpAggregate6 (some tcpGso6))) ∧
    (sent frameAns (gsoTranslateTcp6to4 vnetGcfg tcpAggregate6 (some tcpGso6))).length = 2 ∧
    (written frameAns (gsoSoftwareSegmentAndSend6to4 vnetGcfg tcpAggregate6 (some tcpGso6))).map
      (fun packet => (packet.length, decide (IsDf0 packet), getU8 packet 33)) =
        [(1340, false, 0x90), (140, true, 0x19)] :=
  have h := tcp_paths_agree6 kernelDevice kernelDevice_offloads vnetGcfg frameAns (by decide) (by decide) (by decide)
    tcpAggregate6 tcpGso6 (by decide +kernel)
  ⟨h.2.1 fun packet _ => frameAns_delivers none packet, h.2.2, by decide +kernel, by decide +kernel⟩

/-- **An aggregate is the same on the wire, cut by a device or in software**, up to what is left to the device.  With
one exception for each family: the software emitter of TCP counts the options of IPv4, and the fast path of UDP looks
at the hop limit of IPv6 first. -/
theorem wire_agrees (device : Device) (hdev : Offloads device) (entry : GsoEntry) (g : Gcfg)
    (ans : (op : PktOp) → op.Ans) (hans : Delivers ans) (hvnet : 0 < g.vnetHdrSz) (hmtu : mtuMin ≤ g.mtu)
    (hmax : g.mtu < 65536) :
    (∀ d v ihl l4Len, Aggregate4 entry g d v ihl l4Len → d.length < 65536 →
      (List.Forall₂ Alike (wire device ans (entry.run g d (some v))) (written ans (entry.software.run g d (some v))) ↔
        ((Ip4.ofBytes d).flagsOffset &&& ip4FDf ≠ 0 → entry = .tcp → 40 + largestL4 d v ihl l4Len ≤ g.mtu →
          ihl + 20 + largestL4 d v ihl l4Len ≤ g.mtu))) ∧
    ∀ d v l4Len, Aggregate6 entry d v l4Len →
      (List.Forall₂ Alike (wire device ans (entry.run6 g d (some v)))
          (written ans (entry.software.run6 g d (some v))) ↔
        (entry = .udp → (Ip6.ofBytes d).hopLimit ≤ 1 → 40 + largestL4 d v 40 l4Len ≤ g.mtu)) := by
  constructor
  · intro d v ihl l4Len h hlen
    obtain ⟨hvalid, -⟩ := gsoValidateIpv4Header_valid h.hip4
    rw [ways4 hdev hans hmtu h hlen, tests4_iff hvalid.hmin]
  · intro d v l4Len h
    rw [ways6 hdev hans hvnet hmtu hmax h, tests6_iff]

theorem udpSegments6_aggregate : Aggregate6 .udp udpSegments6 udpGso6 8 :=
  ⟨by decide +kernel, by decide +kernel, by decide +kernel, by decide +kernel, by decide +kernel, by decide +kernel,
    by decide +kernel⟩

/-- Two aggregates that the device cuts. -/
theorem wire_agrees_sample :
    List.Forall₂ Alike (wire kernelDevice frameAns (GsoEntry.udp.run usoGcfg df0Aggregate (some df0UdpGso)))
      (written frameAns (GsoEntry.udpSoftware.run usoGcfg df0Aggregate (some df0UdpGso))) ∧
    List.Forall₂ Alike (wire kernelDevice frameAns (GsoEntry.udp.run6 usoGcfg udpSegments6 (some udpGso6)))
      (written frameAns (GsoEntry.udpSoftware.run6 usoGcfg udpSegments6 (some udpGso6))) ∧
    (sent frameAns (GsoEntry.udp.run6 usoGcfg udpSegments6 (some udpGso6))).length = 1 ∧
    (written frameAns (GsoEntry.udpSoftware.run6 usoGcfg udpSegments6 (some udpGso6))).length = 2 :=
  have h := wire_agrees kernelDevice kernelDevice_offloads .udp usoGcfg frameAns frameAns_delivers (by decide)
    (by decide) (by decide)
  ⟨(h.1 _ _ _ _ df0Aggregate_aggregate (by decide +kernel)).2 fun _ hne => absurd hne (by decide),
    (h.2 _ _ _ udpSegments6_aggregate).2 fun _ hhops => absurd hhops (by decide +kernel), by decide +kernel,
    by decide +kernel⟩

end Tayga
