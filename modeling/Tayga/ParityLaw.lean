import Tayga.ChecksumProofs
import Tayga.Verdicts

/-!
# Aggregates and their first segments

What becomes of an aggregate, and of its first segment as a packet of its own.  Both are dropped, answered or translated
after the same checks, but in different orders (`orders_agree`): the size of an aggregate is tested first or behind its
TTL, and a TTL of 0 is an expired one.  `gso_parity` says when the class is the same.
-/

namespace Tayga

open Program

variable {g : Gcfg} {d s : List Byte} {v : VnetHdr} {vhdr : Option VnetHdr} {ans : (op : PktOp) → op.Ans}
  {ihl l4Len : Nat}

/-- The same checks in two orders.  The first tests the size in front, and takes a TTL of 0 for an expired one; the
second has the size among the last checks. -/
private theorem orders_agree {zero one toSelf tooBig : Prop} [Decidable zero] [Decidable one] [Decidable toSelf]
    [Decidable tooBig] {dropped big expired self last : Outcome} (hbig : big ∉ [dropped, expired, self])
    (hexpired : expired ∉ [dropped, self]) :
    (if tooBig then big else if zero ∨ one then expired else if toSelf then self else last) =
      (if zero then dropped else if toSelf then self else if one then expired else last) ↔
    ¬zero ∧ (one → ¬toSelf) ∧ (tooBig → ¬one ∧ ¬toSelf ∧ last = big) := by
  simp only [List.mem_cons, List.not_mem_nil, or_false, not_or] at hbig hexpired
  obtain ⟨hbd, hbe, hbs⟩ := hbig
  obtain ⟨hed, hes⟩ := hexpired
  by_cases ht : tooBig
  · rw [if_pos ht]
    by_cases hz : zero
    · rw [if_pos hz]
      exact iff_of_false hbd fun h => h.1 hz
    rw [if_neg hz]
    by_cases hs : toSelf
    · rw [if_pos hs]
      exact iff_of_false hbs fun h => (h.2.2 ht).2.1 hs
    rw [if_neg hs]
    by_cases ho : one
    · rw [if_pos ho]
      exact iff_of_false hbe fun h => (h.2.2 ht).1 ho
    rw [if_neg ho]
    exact ⟨fun h => ⟨hz, fun h => absurd h ho, fun _ => ⟨ho, hs, h.symm⟩⟩, fun h => (h.2.2 ht).2.2.symm⟩
  rw [if_neg ht]
  by_cases hz : zero
  · rw [if_pos hz, if_pos (show zero ∨ one from .inl hz)]
    exact iff_of_false hed fun h => h.1 hz
  rw [if_neg hz]
  by_cases ho : one
  · rw [if_pos (show zero ∨ one from .inr ho)]
    by_cases hs : toSelf
    · rw [if_pos hs]
      exact iff_of_false hes fun h => h.2.1 ho hs
    · rw [if_neg hs, if_pos ho]
      exact iff_of_true rfl ⟨hz, fun _ => hs, fun h => absurd h ht⟩
  · rw [if_neg (show ¬(zero ∨ one) from not_or.2 ⟨hz, ho⟩), if_neg ho]
    exact iff_of_true rfl ⟨hz, fun h => absurd h ho, fun h => absurd h ht⟩

/-! ### Segments that are translated -/

/-- A transport header whose checksum is complete: that of UDP is not left out. -/
def CompleteCsum (proto : Byte) (l4 : List Byte) : Prop :=
  (proto = 6 ∧ 20 ≤ l4.length) ∨ (proto = 17 ∧ 8 ≤ l4.length ∧ getBe16 l4 6 ≠ 0)

private theorem CompleteCsum.isTransport {proto : Byte} {l4 : List Byte} (h : CompleteCsum proto l4) :
    IsTransport proto :=
  h.imp And.left And.left

theorem CompleteCsum.ne_nil {proto : Byte} {l4 : List Byte} (h : CompleteCsum proto l4) : l4 ≠ [] := by
  rintro rfl
  rcases h with h | h
  · exact absurd h.2 (by decide)
  · exact absurd h.2.1 (by decide)

/-- A complete checksum is adjusted. -/
private theorem xlatePayload_complete {x : PayloadCtx} {proto : Byte} {p : Payload} (h : CompleteCsum proto p.1)
    (hicmp : ¬IsTransport x.icmpProto) (hneeds : needsCsum p.2 = false) :
    ∃ q, xlatePayload g x proto false p = some q ∧ q.2 = p.2 := by
  have hne : proto ≠ x.icmpProto := fun heq => hicmp (heq ▸ h.isTransport)
  unfold xlatePayload
  rw [hneeds, if_neg fun h => Bool.false_ne_true h.2]
  by_cases hnon : x.noninitial
  · rw [if_pos hnon]
    exact ⟨p, rfl, rfl⟩
  rw [if_neg hnon, if_neg hne]
  rcases h with ⟨rfl, hlen⟩ | ⟨rfl, hlen, hcksum⟩
  · rw [if_neg (by decide), if_pos rfl]
    unfold PayloadCtx.tcp
    rw [if_neg (by omega), hneeds, if_neg (by decide)]
    exact ⟨_, rfl, rfl⟩
  · rw [if_pos rfl]
    unfold PayloadCtx.udp
    rw [if_neg (by omega), hneeds, if_neg (by decide), if_neg]
    · exact ⟨_, rfl, rfl⟩
    · unfold getU16
      rw [htons_ne_zero]
      exact hcksum

/-- Such a packet is translated to IPv4. -/
private theorem xlate6to4Emit_outcome {p : Pkt6} {src dest : In4} (hp : CompleteCsum p.dataProto p.data)
    (hneeds : needsCsum p.vhdr = false) : outcome6 ans (xlate6to4Emit g p src dest) = .translated := by
  refine Outcome.ofWritten_other ?_ fun packet hmem => ?_
  · unfold xlate6to4Emit
    rw [written_bind, xlateHeader6to4_written]
    dsimp only
    generalize ({ (xlateHeader6to4 p src dest p.data.length).answer ans with ttl := _ } : Ip4) = ip4
    have hicmp : ¬IsTransport (payloadCtx6to4 g p ip4).icmpProto := fun h => h.ne_icmp.2 rfl
    obtain ⟨q, hq, -⟩ := xlatePayload_complete (g := g) (p := (p.data, p.vhdr)) hp hicmp hneeds
    unfold xlatePayload6to4
    rw [hq]
    exact List.cons_ne_nil _ _
  · rw [xlate6to4Emit_version hmem]
    decide

private theorem fragmentLoop_ne_nil {ip6 : Ip6} {frag : Ip6Frag} {mf : Bool} {off : BitVec 16} {fragSize : Nat}
    {data : List Byte} (hdata : data ≠ []) :
    written ans (fragmentLoop ip6 frag mf data.length off fragSize data) ≠ [] := by
  obtain ⟨b, data, rfl⟩ := List.exists_cons_of_ne_nil hdata
  unfold fragmentLoop
  exact List.cons_ne_nil _ _

/-- Such a packet is translated to IPv6. -/
private theorem xlate4to6Emit_outcome {p : Pkt4} {src dest : In6} {fragSize : Nat} {noFragHdr : Bool}
    (hp : CompleteCsum p.dataProto p.data) (hneeds : needsCsum p.vhdr = false) :
    outcome4 ans (xlate4to6Emit g p src dest fragSize noFragHdr) = .translated := by
  refine Outcome.ofWritten_other ?_ fun packet hmem => ?_
  · unfold xlate4to6Emit
    dsimp only
    generalize ({ xlateHeader4to6 p src dest p.data.length with hopLimit := _ } : Ip6) = ip6
    have hicmp : ¬IsTransport (payloadCtx4to6 g p ip6).icmpProto := fun h => h.ne_icmp.1 rfl
    obtain ⟨q, hq, hvhdr⟩ := xlatePayload_complete (g := g) (p := (p.data, p.vhdr)) hp hicmp hneeds
    unfold xlatePayload4to6
    rw [hq]
    dsimp only [Option.map_some]
    split
    · exact List.cons_ne_nil _ _
    · have hlen : q.1.length = p.data.length := length_xlatePayload hq fun heq => absurd (heq ▸ hp.isTransport) hicmp
      refine fragmentLoop_ne_nil ?_
      unfold completeCsum
      rw [if_neg (by rw [hvhdr, hneeds]; decide)]
      intro hnil
      rw [show q.1 = [] from hnil] at hlen
      exact hp.ne_nil (List.length_eq_zero_iff.1 hlen.symm)
  · have hwrote : Wrote4to6 (fun _ _ => False) (fun _ => True) packet := (xlate4to6Emit_writes trivial).mem hmem
    rw [hwrote.version_eq fun _ _ h => h]
    decide

/-! ### The first segment -/

private theorem errorPacket4_outcome {type code : Byte} {word : BitVec 32} {p : Pkt4} :
    Outcome.ofWritten 4 20 [errorPacket4 g type code word p] = .error type code :=
  if_pos (version_icmpPacket4 _ _ _ _ _ _)

private theorem errorPacket6_outcome {type code : Byte} {word : BitVec 32} {p : Pkt6} :
    Outcome.ofWritten 6 40 [errorPacket6 g type code word p] = .error type code :=
  if_pos (version_icmpPacket6 _ _ _ _ _ _)

/-- The mapper and the MTU, for `l4Len` bytes behind an IPv4 header. -/
def mapOutcome4 (g : Gcfg) (ans : (op : PktOp) → op.Ans) (h : Ip4) (l4Len : Nat) : Outcome :=
  ((mapVerdict4 ans h.src h.dest).fitting g h l4Len).outcome

/-- The mapper and the MTU, for `l4Len` bytes behind an IPv6 header. -/
def mapOutcome6 (g : Gcfg) (ans : (op : PktOp) → op.Ans) (h : Ip6) (l4Len : Nat) : Outcome :=
  (mapVerdict6 g ans h.src h.dest l4Len).outcome

/-- **A plain IPv4 packet** with a complete checksum. -/
theorem plain4_outcome {offload : Bool} {proto : Byte} (h : ValidHeader4 g.endian s proto ihl)
    (hwhole : (Ip4.ofBytes s).flagsOffset &&& (ip4FMask ||| ip4FMf) = 0)
    (hlen : (Ip4.ofBytes s).length.toNat = s.length) (hcomplete : CompleteCsum proto (s.drop ihl))
    (hgso : isGso vhdr = false) (hneeds : needsCsum vhdr = false) : outcome4 ans (handleIp4 g offload s vhdr) =
    if (Ip4.ofBytes s).ttl = 0 then .drop
    else if (Ip4.ofBytes s).dest = g.localAddr4 then .error 3 2
    else if (Ip4.ofBytes s).ttl = 1 then .error 11 0
    else mapOutcome4 g ans (Ip4.ofBytes s) (s.length - ihl) := by
  have hne := hcomplete.isTransport.ne_icmp.1
  have hparse : parseIp4 s vhdr false = _ := parseIp4_of_valid h hcomplete.isTransport hwhole hlen
  have hip4 : (⟨s.take ihl, s.drop ihl, proto, vhdr⟩ : Pkt4).ip4 = Ip4.ofBytes s := Ip4.ofBytes_take h.hmin h.hfit
  unfold handleIp4
  rw [hgso, if_neg Bool.false_ne_true]
  by_cases httl : (Ip4.ofBytes s).ttl = 0
  · rw [if_pos httl]
    unfold handlePlain4
    rw [hparse]
    dsimp only
    rw [hip4, if_pos (.inl httl)]
    rfl
  have hvalid : Valid4 g ⟨s.take ihl, s.drop ihl, proto, vhdr⟩ := by
    refine ⟨by rwa [hip4], h.hcksum, ?_, fun h => absurd h hne⟩
    rw [hip4, hlen, Pkt4.headerLen, List.length_take_of_le h.hfit, List.length_drop]
    have := h.hfit
    omega
  obtain ⟨fragSize, noFragHdr, hwritten⟩ := handlePlain4_verdict ans hparse hvalid hne
  unfold outcome4
  rw [if_neg httl, hwritten, Verdict.ofWritten_written _ (fun _ _ _ => errorPacket4_outcome) fun _ _ =>
    xlate4to6Emit_outcome hcomplete hneeds]
  unfold verdict4
  rw [hip4, apply_ite Verdict.outcome, apply_ite Verdict.outcome, List.length_drop]
  rfl

/-- **A plain IPv6 packet** with a complete checksum. -/
theorem plain6_outcome {offload : Bool} {proto : Byte} (hvalid : gsoValidIp6 s proto) (hlen : 40 ≤ s.length)
    (hcomplete : CompleteCsum proto (s.drop 40)) (hgso : isGso vhdr = false) (hneeds : needsCsum vhdr = false) :
    outcome6 ans (handleIp6 g offload s vhdr) =
    if (Ip6.ofBytes s).hopLimit = 0 then .drop
    else if (Ip6.ofBytes s).dest = g.localAddr6 then .error 4 1
    else if (Ip6.ofBytes s).hopLimit = 1 then .error 3 0
    else mapOutcome6 g ans (Ip6.ofBytes s) (s.length - 40) := by
  obtain ⟨hversion, hnext, hpayload, hsrc, hdest⟩ := of_decide_eq_true hvalid
  have htransport := hcomplete.isTransport
  have hne := htransport.ne_icmp
  have hdata : ip6Data s = s.drop 40 := by
    unfold ip6Data
    rw [hpayload, ← List.length_drop, List.take_length]
  have hext : ¬isExt proto ∧ proto ≠ 44 := by rcases htransport with rfl | rfl <;> decide
  have hwf : WellFormed6 false s [] none proto (s.drop 40) := by
    refine ⟨hlen, hversion, hsrc, hdest, by decide, ⟨proto, s.drop 40, ?_, .whole hext.2⟩, fun h => absurd h hne.2,
      hne.1⟩
    rw [hnext, hdata]
    exact .nil hext.1
  obtain ⟨p, ptr, -, hip6, -, hheader, hfrag, hproto, hpdata, hvhdr, hparse⟩ := parseIp6_of_wellFormed vhdr hwf
  rw [show lastSegLeft [] = 0 from rfl, if_pos rfl] at hparse
  rw [← hproto, ← hpdata] at hcomplete
  unfold handleIp6
  rw [hgso, if_neg Bool.false_ne_true]
  by_cases hhops : (Ip6.ofBytes s).hopLimit = 0
  · rw [if_pos hhops]
    unfold handlePlain6
    rw [hparse]
    dsimp only
    rw [hip6, if_pos (.inl hhops)]
    rfl
  have hvalid : Valid6 g p := by
    refine ⟨by rwa [hip6], ?_, fun h => absurd (hproto.symm.trans h) hne.2⟩
    rw [hheader, hdata, hip6, hpayload, List.length_drop]
  have hwritten : written ans (handlePlain6 g s vhdr) = _ := handlePlain6_verdict hparse hvalid (hproto ▸ hne.2)
  unfold outcome6
  rw [if_neg hhops, hwritten, Verdict.ofWritten_written _ (fun _ _ _ => errorPacket6_outcome) fun _ _ =>
    xlate6to4Emit_outcome hcomplete (by rw [hvhdr, hneeds])]
  unfold verdict6
  rw [hip6, apply_ite Verdict.outcome, apply_ite Verdict.outcome, hpdata, List.length_drop]
  rfl

/-! ### Aggregates to IPv6 -/

theorem gsoError4_outcome {type code : Byte} {word : BitVec 32} {p : Pkt4} (hp : p.dataProto ≠ 1) :
    outcome4 ans (gsoError4 g type code word p) = .error type code := by
  unfold outcome4 gsoError4
  rw [hostSendIcmp4Error_eq hp]
  exact errorPacket4_outcome

private theorem outcome4_map {addr4 : In4} {k : Except Error In6 → PktProg (Except Bool (In6 × In6))}
    {f : Except Bool (In6 × In6) → PktProg Bool} :
    outcome4 ans (.call (.mapIp4ToIp6 addr4) k >>= f) = outcome4 ans (k (ans (.mapIp4ToIp6 addr4)) >>= f) := rfl

/-- The mapping of an aggregate that fits. -/
private theorem gsoMap4to6WithIcmp_outcome {p : Pkt4} {size : Nat} {f : Except Bool (In6 × In6) → PktProg Bool}
    (hp : p.dataProto ≠ 1) (hf : AfterMap4 ans size f) (hsize : size ≤ 65535)
    (hfits : ¬(DontFragment p.ip4 ∧ g.mtu < 40 + size)) : outcome4 ans (gsoMap4to6WithIcmp g p >>= f) =
    if p.ip4.dest = g.localAddr4 then .error 3 2 else mapOutcome4 g ans p.ip4 size := by
  have herror : ∀ type code word, outcome4 ans
      ((hostSendIcmp4Error g type code word p >>= fun _ => .done (.error true)) >>= f) = .error type code := by
    intro type code word
    unfold outcome4
    rw [hostSendIcmp4Error_eq hp]
    show Outcome.ofWritten 4 20 (errorPacket4 g type code word p :: written ans (f (.error true))) = _
    rw [hf.herror]
    exact errorPacket4_outcome
  have hrefused : outcome4 ans ((.done (.error false) : PktProg _) >>= f) = .drop := by
    unfold outcome4
    show Outcome.ofWritten 4 20 (written ans (f (.error false))) = _
    rw [hf.herror]
    rfl
  unfold gsoMap4to6WithIcmp mapOutcome4 mapVerdict4
  by_cases hdest : p.ip4.dest = g.localAddr4
  · rw [if_pos hdest, if_pos hdest]
    exact herror 3 2 0
  rw [if_neg hdest, if_neg hdest, outcome4_map]
  rcases ans (.mapIp4ToIp6 p.ip4.dest) with (_ | _ | _) | dest
  · exact herror 3 1 0
  · exact hrefused
  · exact hrefused
  dsimp only
  rw [outcome4_map]
  rcases ans (.mapIp4ToIp6 p.ip4.src) with (_ | _ | _) | src
  · exact herror 3 10 0
  · exact hrefused
  · exact hrefused
  dsimp only [Verdict.fitting]
  rw [if_neg hfits]
  exact Outcome.ofWritten_other (hf.hsends hsize (src, dest)) fun packet hmem => by
    rw [(hf.hversion (src, dest)).mem hmem]
    decide

/-- **What becomes of an aggregate that is checked**, if a segment that fits the MTU is not too big. -/
theorem Checks4.outcome {p : Pkt4} {tooBig : Prop} [Decidable tooBig] {size : Nat} {prog : PktProg Bool}
    (h : Checks4 g ans p tooBig size prog) (hp : p.dataProto ≠ 1) (hsize : size ≤ 65535)
    (hbig : ¬p.ip4.ttl ≤ 1 → g.mtu < 40 + size → tooBig) : outcome4 ans prog =
    if p.ip4.flagsOffset &&& ip4FDf ≠ 0 ∧ tooBig then .error 3 4
    else if p.ip4.ttl = 0 ∨ p.ip4.ttl = 1 then .error 11 0
    else if p.ip4.dest = g.localAddr4 then .error 3 2
    else mapOutcome4 g ans p.ip4 size := by
  obtain ⟨f, hf, hrun⟩ := h
  rw [hrun]
  by_cases htoo : p.ip4.flagsOffset &&& ip4FDf ≠ 0 ∧ tooBig
  · rw [if_pos htoo, if_pos htoo]
    exact gsoError4_outcome hp
  rw [if_neg htoo, if_neg htoo]
  by_cases httl : p.ip4.ttl ≤ 1
  · rw [if_pos httl, if_pos (ttl_le_one.1 httl)]
    exact gsoError4_outcome hp
  rw [if_neg httl, if_neg fun h => httl (ttl_le_one.2 h)]
  exact gsoMap4to6WithIcmp_outcome hp hf hsize fun ⟨hdf, hlt⟩ => htoo ⟨hdf.2, hbig httl hlt⟩

/-- The size test of an entry point is at least that of the data path. -/
theorem GsoEntry.tooBig_of_exceeds {entry : GsoEntry} {h : Ip4} {size : Nat} (hihl : 20 ≤ ihl) (httl : ¬h.ttl ≤ 1)
    (hlt : g.mtu < 40 + size) : entry.TooBig g h ihl size := by
  cases entry with
  | tcp => exact hlt
  | tcpSoftware => exact (show g.mtu < ihl + 20 + _ by omega)
  | udp => exact ⟨httl, by omega⟩
  | udpSoftware => exact ⟨httl, by omega⟩

/-- **What becomes of an aggregate from IPv4.** -/
theorem entry_outcome {entry : GsoEntry} (h : Aggregate4 entry g d v ihl l4Len) (hmtu : mtuMin ≤ g.mtu)
    (hsize : largestL4 d v ihl l4Len ≤ 65535) : outcome4 ans (entry.run g d (some v)) =
    if (Ip4.ofBytes d).flagsOffset &&& ip4FDf ≠ 0 ∧ entry.TooBig g (Ip4.ofBytes d) ihl (largestL4 d v ihl l4Len) then
      .error 3 4
    else if (Ip4.ofBytes d).ttl = 0 ∨ (Ip4.ofBytes d).ttl = 1 then .error 11 0
    else if (Ip4.ofBytes d).dest = g.localAddr4 then .error 3 2
    else mapOutcome4 g ans (Ip4.ofBytes d) (largestL4 d v ihl l4Len) := by
  obtain ⟨hvalid, -⟩ := gsoValidateIpv4Header_valid h.hip4
  have hip4 := gsoPkt4_ip4 (v := v) hvalid
  have hout := (entry_checks ans h hmtu).outcome (show (gsoPkt4 d v ihl entry.proto).dataProto ≠ 1 from
    entry.isTransport_proto.ne_icmp.1) hsize
  rw [hip4] at hout
  exact hout (GsoEntry.tooBig_of_exceeds hvalid.hmin)

/-! ### Aggregates to IPv4 -/

/-- `gso_translate_tcp_6to4`, `gso_software_segment_and_send_6to4` and the same for UDP. -/
def GsoEntry.run6 (entry : GsoEntry) (g : Gcfg) (d : List Byte) (vhdr : Option VnetHdr) : PktProg Bool :=
  match entry with
  | tcp => gsoTranslateTcp6to4 g d vhdr
  | tcpSoftware => gsoSoftwareSegmentAndSend6to4 g d vhdr
  | udp => gsoTranslateUdp6to4 g d vhdr
  | udpSoftware => gsoSoftwareSegmentAndSendUdp6to4 g d vhdr

/-- A TCP aggregate from IPv6: its virtio header fits, and so does its TCP header of `l4Len` bytes.  Only the software
path takes one with a complete checksum. -/
structure TcpAggregate6 (d : List Byte) (v : VnetHdr) (software : Bool) (l4Len : Nat) : Prop where
  htype : v.gso = vnetGsoTcpv6
  hl4 : l4Len = tcpHdrLen (d.drop 40)
  hmin : 20 ≤ l4Len
  hfit : 40 + l4Len ≤ d.length
  hhdrLen : 40 + l4Len ≤ v.hdrLen.toNat
  hvnet : (software = false ∨ v.needsCsum) → gsoValidateTransportVnet d.length v 40 l4Len 16

/-- A well-formed aggregate from IPv6 for an entry point, with `l4Len` bytes of transport header. -/
structure Aggregate6 (entry : GsoEntry) (d : List Byte) (v : VnetHdr) (l4Len : Nat) : Prop where
  hheader : gsoValidateHeader d.length v = 1
  hip6 : gsoValidIp6 d entry.proto
  hl4 : match entry with
    | .tcp => TcpAggregate6 d v false l4Len
    | .tcpSoftware => TcpAggregate6 d v true l4Len
    | .udp | .udpSoftware => UdpAggregate d v 40 l4Len

/-- The size test of an entry point from IPv6, for a largest segment of `size` transport bytes. -/
def GsoEntry.TooBig6 (entry : GsoEntry) (g : Gcfg) (h : Ip6) (size : Nat) : Prop :=
  match entry with
  | .tcp | .tcpSoftware | .udpSoftware => g.mtu < 40 + size
  | .udp => ¬h.hopLimit ≤ 1 ∧ g.mtu < 40 + size

instance {entry : GsoEntry} {h : Ip6} {size : Nat} : Decidable (entry.TooBig6 g h size) :=
  match entry with
  | .tcp => inferInstanceAs (Decidable (_ < _))
  | .tcpSoftware => inferInstanceAs (Decidable (_ < _))
  | .udp => inferInstanceAs (Decidable (_ ∧ _))
  | .udpSoftware => inferInstanceAs (Decidable (_ < _))

/-- What an entry point from IPv6 does once the mapper was asked: it passes on that an address is not mapped, or sends
IPv4 packets.  Segments that fit an IPv4 packet are sent. -/
structure AfterMap6 (ans : (op : PktOp) → op.Ans) (size : Nat) (f : Except Bool (In4 × In4) → PktProg Bool) : Prop where
  herror : ∀ handled, f (.error handled) = .done handled
  hversion : ∀ r, OnlyWrites (fun packet => version packet = 4) (f (.ok r))
  hsends : 20 + size ≤ 65535 → ∀ r, written ans (f (.ok r)) ≠ []

/-- An entry point for the aggregate `p` checks it, maps its addresses and sends it. -/
def Checks6 (g : Gcfg) (ans : (op : PktOp) → op.Ans) (p : Pkt6) (tooBig : Prop) [Decidable tooBig] (size : Nat)
    (prog : PktProg Bool) : Prop :=
  ∃ f, AfterMap6 ans size f ∧ prog =
    if tooBig then gsoError6 g 2 0 (BitVec.ofNat 32 g.mtu) p
    else if p.ip6.hopLimit ≤ 1 then gsoError6 g 3 0 0 p
    else gsoMap6to4WithIcmp g p >>= f

section Build6

variable {e : Endian} {p : Pkt6} {src4 dst4 : In4} {offset : Nat} {isLast : Bool} {nextId : BitVec 16} {seg : List Byte}
  {r : List Byte × BitVec 16}

private theorem buildTcp6to4_version {tcp : TcpHdr}
    (h : buildTcp6to4 e p tcp l4Len src4 dst4 offset isLast nextId seg = some r) : version r.1 = 4 := by
  unfold buildTcp6to4 at h
  dsimp only at h
  split at h
  · cases h
  · cases h
    dsimp only
    rw [List.append_assoc]
    exact Ip4.version_toBytes segmentIp4_header.1 _

private theorem buildTcp6to4_ne_none {tcp : TcpHdr} (h : 20 + (l4Len + seg.length) ≤ 65535) :
    buildTcp6to4 e p tcp l4Len src4 dst4 offset isLast nextId seg ≠ none := by
  unfold buildTcp6to4
  dsimp only
  rw [if_neg (by omega)]
  exact Option.some_ne_none _

private theorem buildUdp6to4_version {udp : UdpHdr}
    (h : buildUdp6to4 e p udp src4 dst4 offset isLast nextId seg = some r) :
    version r.1 = 4 := by
  unfold buildUdp6to4 at h
  dsimp only at h
  split at h
  · cases h
  · cases h
    dsimp only
    rw [List.append_assoc]
    exact Ip4.version_toBytes segmentIp4_header.1 _

private theorem buildUdp6to4_ne_none {udp : UdpHdr} (h : 20 + (8 + seg.length) ≤ 65535) :
    buildUdp6to4 e p udp src4 dst4 offset isLast nextId seg ≠ none := by
  unfold buildUdp6to4
  dsimp only
  rw [if_neg (by omega)]
  exact Option.some_ne_none _

end Build6

private theorem emit4_onlyWrites {vhdr : Option VnetHdr} {h : Ip4} (hv : h.verIhl = 0x45) (rest : List Byte) :
    OnlyWrites (fun packet => version packet = 4) (emit vhdr (h.toBytes ++ rest) >>= fun _ => .done true) :=
  OnlyWrites.bind (OnlyWrites.emit (Ip4.version_toBytes hv rest)) fun _ => .done _

private theorem written_bind_ne_nil {α β : Type} {prog : PktProg α} {f : α → PktProg β}
    (h : ∀ a, written ans (f a) ≠ []) :
    written ans (prog >>= f) ≠ [] := by
  rw [written_bind]
  exact List.append_ne_nil_of_right_ne_nil _ (h _)

private theorem gsoTcpHead_version {p : Pkt6} {headLen : Nat} {src4 dst4 : In4} :
    version (gsoTcpHead g v p l4Len headLen src4 dst4).2 = 4 := by
  obtain ⟨h, rest, heq, hv, -⟩ := gsoTcpHead_ip4 (g := g) v p l4Len headLen src4 dst4
  rw [heq]
  exact Ip4.version_toBytes hv rest

private theorem gsoTcpTail_version {p : Pkt6} {headLen : Nat} {src4 dst4 : In4} {ident : BitVec 16} :
    version (gsoTcpTail g p l4Len headLen src4 dst4 ident).2 = 4 := by
  obtain ⟨h, rest, heq, hv, -⟩ := gsoTcpTail_ip4 (g := g) p l4Len headLen src4 dst4 ident
  rw [heq]
  exact Ip4.version_toBytes hv rest

theorem gsoPkt6_ip6 {proto : Byte} (hlen : 40 ≤ d.length) : (gsoPkt6 d v proto).ip6 = Ip6.ofBytes d :=
  Ip6.ofBytes_of_prefix hlen (List.prefix_refl _)

/-- The size test as it is written. -/
private theorem tooBig6_iff (d : List Byte) (v : VnetHdr) (proto : Byte) (l4Len : Nat) (hmtu : mtuMin ≤ g.mtu) :
    0 < g.mtu ∧ g.mtu < 40 + l4Len + maxSeg ((gsoPkt6 d v proto).data.drop l4Len).length v.gsoSize.toNat ↔
    g.mtu < 40 + largestL4 d v 40 l4Len := by
  have hlen : ((gsoPkt6 d v proto).data.drop l4Len).length = d.length - 40 - l4Len := by
    show ((d.drop 40).drop l4Len).length = _
    rw [List.length_drop, List.length_drop]
  unfold mtuMin at hmtu
  unfold largestL4
  rw [hlen]
  omega

/-- A check that cannot fail behind another one. -/
private theorem ite_skip {α : Type} {a b : Prop} [Decidable a] [Decidable b] {x y z : α} (h : ¬a → ¬b) :
    (if a then x else if b then y else z) = if a then x else z := by
  by_cases ha : a
  · rw [if_pos ha, if_pos ha]
  · rw [if_neg ha, if_neg ha, if_neg (h ha)]

/-- Two checks repeated in the other order. -/
private theorem ite_swapped {α : Type} {first second : Prop} [Decidable first] [Decidable second] {x y z : α} :
    (if first then x else if second then y else if second then y else if first then x else z) =
    if ¬first ∧ second then y else if first then x else z := by
  rw [← ite_front]
  by_cases hsecond : second
  · rw [if_pos hsecond, if_pos hsecond]
  · rw [if_neg hsecond, if_neg hsecond, if_neg hsecond]
    split_ifs <;> rfl

/-- The same checks made twice. -/
private theorem ite_repeat {α : Type} {a b : Prop} [Decidable a] [Decidable b] {x y z : α} :
    (if a then x else if b then y else if a then x else if b then y else z) = if a then x else if b then y else z := by
  split_ifs <;> rfl

/-- A UDP aggregate to IPv4 is cut here: the device cannot cut it, or the tail would get another DF. -/
def CutsUdp6 (g : Gcfg) (l4 : List Byte) (gsoSize : Nat) : Prop :=
  (!g.tunHasUso) = true ∨ 65535 < 20 + l4.length ∨ (l4.drop 8).length / gsoSize ≠ 0 ∧
    (l4.drop 8).length % gsoSize ≠ 0 ∧ decide (20 + 8 + maxSeg (l4.drop 8).length gsoSize ≤ 1260) ≠
      decide (20 + 8 + (l4.drop 8).length % gsoSize ≤ 1260)

instance {l4 : List Byte} {gsoSize : Nat} : Decidable (CutsUdp6 g l4 gsoSize) := inferInstanceAs (Decidable (_ ∨ _))

/-- A TCP aggregate to IPv4 is sent in two parts: full segments with DF set, and a tail with DF clear. -/
def SplitsTcp6 (l4Len payloadLen gsoSize : Nat) : Prop :=
  1260 < 20 + l4Len + gsoSize ∧ 0 < payloadLen % gsoSize ∧ 20 + l4Len + payloadLen % gsoSize ≤ 1260 ∧
    gsoSize < payloadLen

instance {l4Len payloadLen gsoSize : Nat} : Decidable (SplitsTcp6 l4Len payloadLen gsoSize) :=
  inferInstanceAs (Decidable (_ ∧ _))

/-- What an entry point from IPv6 sends once the addresses are mapped, the IPv4 source and destination. -/
def GsoEntry.send6 (entry : GsoEntry) (g : Gcfg) (d : List Byte) (v : VnetHdr) (l4Len : Nat) (r : In4 × In4) :
    PktProg Bool :=
  let p := gsoPkt6 d v entry.proto
  let payload := p.data.drop l4Len
  let gsoSize := v.gsoSize.toNat
  let ip4 (ident : BitVec 16 × BitVec 16) := gsoIp4 g.endian p.ip6.tc (p.ip6.hopLimit - 1) entry.proto ident.1 ident.2
    r.1 r.2 (20 + p.data.length)
  let seed := gsoCalcPseudo4 r.1 r.2 entry.proto (BitVec.ofNat 32 p.data.length)
  let software build : PktProg Bool := do
    let nextId ← reserveSegments (gsoDf0Segments payload.length gsoSize (20 + l4Len))
    segmentLoop gsoSize build (payload.length + 1) 0 nextId payload
  let tcpSoftware := software (buildTcp6to4 g.endian p (TcpHdr.ofBytes (p.data.take l4Len)) l4Len r.1 r.2)
  let udpSoftware := software (buildUdp6to4 g.endian p (UdpHdr.ofBytes p.data) r.1 r.2)
  match entry with
  | .tcp =>
    if 65535 < 20 + l4Len + payload.length then tcpSoftware
    else if SplitsTcp6 l4Len payload.length gsoSize then do
      let headLen := payload.length / gsoSize * gsoSize
      let head := gsoTcpHead g v p l4Len headLen r.1 r.2
      emit head.1 head.2
      let ident ← ask (.reserveIp4Ident 1)
      let tail := gsoTcpTail g p l4Len headLen r.1 r.2 ident
      emit tail.1 tail.2
      return true
    else do
      let ident ← gsoIdent (20 + l4Len + maxSeg payload.length gsoSize) payload.length gsoSize
      let vhdr := gsoNormalizeTcpOutput (gsoTcpVhdr v vnetGsoTcpv4 40 20) payload.length
      emit (some vhdr) ((ip4 ident).toBytes ++ put p.data 16 (be16 seed))
      return true
  | .tcpSoftware => tcpSoftware
  | .udp =>
    if CutsUdp6 g p.data gsoSize then udpSoftware
    else do
      let ident ← gsoIdent (20 + 8 + maxSeg payload.length gsoSize) payload.length gsoSize
      emit (some (gsoUdpVhdr v 20)) ((ip4 ident).toBytes ++ gsoUdpSeed p.data seed)
      return true
  | .udpSoftware => udpSoftware

/-- What is done with mapped IPv4 addresses; an error of the mapper is passed on. -/
def sendMapped6 (f : In4 × In4 → PktProg Bool) : Except Bool (In4 × In4) → PktProg Bool
  | .error handled => .done handled
  | .ok r => f r

/-- The checks of an entry point from IPv6 for the aggregate `p`, in front of the mapping. -/
def checked6 (g : Gcfg) (p : Pkt6) (tooBig : Prop) [Decidable tooBig] (f : In4 × In4 → PktProg Bool) : PktProg Bool :=
  if tooBig then gsoError6 g 2 0 (BitVec.ofNat 32 g.mtu) p
  else if p.ip6.hopLimit ≤ 1 then gsoError6 g 3 0 0 p
  else gsoMap6to4WithIcmp g p >>= sendMapped6 f

/-- **`gso_software_segment_and_send_6to4`** tests the size first. -/
theorem tcpSoftware6_program (h : Aggregate6 .tcpSoftware d v l4Len) (hmtu : mtuMin ≤ g.mtu) :
    gsoSoftwareSegmentAndSend6to4 g d (some v) = checked6 g (gsoPkt6 d v 6)
      (GsoEntry.TooBig6 .tcpSoftware g (Ip6.ofBytes d) (largestL4 d v 40 l4Len))
      (GsoEntry.send6 .tcpSoftware g d v l4Len) := by
  have hip6 : gsoValidIp6 d 6 := h.hip6
  have htcp : TcpAggregate6 d v true l4Len := h.hl4
  have hmin := htcp.hmin
  have hfit := htcp.hfit
  have hheader : ¬gsoValidateHeader d.length v ≤ 0 := by
    rw [h.hheader]
    decide
  have htake : ¬(v.gso ≠ vnetGsoTcpv6 ∨ gsoValidateHeader d.length v ≤ 0) :=
    not_or.2 ⟨not_not.2 htcp.htype, hheader⟩
  have hip : ¬(d.length < 40 + 20 ∨ !gsoValidIp6 d 6) := by
    rw [hip6]
    simp only [Bool.not_true, Bool.false_eq_true, or_false]
    omega
  have hvnet : ¬(v.hdrLen.toNat < 40 + l4Len ∨ v.needsCsum ∧ !gsoValidateTransportVnet d.length v 40 l4Len 16) := by
    rintro (hlt | ⟨hneeds, hnot⟩)
    · have := htcp.hhdrLen
      omega
    · rw [htcp.hvnet (.inr hneeds)] at hnot
      cases hnot
  unfold checked6 gsoSoftwareSegmentAndSend6to4
  dsimp only
  rw [show tcpHdrLen (gsoPkt6 d v 6).data = l4Len from htcp.hl4.symm, if_neg htake, if_neg hip,
    if_neg (show ¬(l4Len < 20 ∨ d.length < 40 + l4Len) by omega), if_neg hvnet, effectiveGsoSize_eq hheader]
  refine if_congr (tooBig6_iff d v 6 l4Len hmtu) rfl (if_congr Iff.rfl rfl (congrArg _ (funext fun r => ?_)))
  cases r <;> rfl

/-- **`gso_translate_tcp_6to4`** tests the size first. -/
theorem tcp6_program (h : Aggregate6 .tcp d v l4Len) (hmtu : mtuMin ≤ g.mtu) :
    gsoTranslateTcp6to4 g d (some v) = checked6 g (gsoPkt6 d v 6)
      (GsoEntry.TooBig6 .tcp g (Ip6.ofBytes d) (largestL4 d v 40 l4Len)) (GsoEntry.send6 .tcp g d v l4Len) := by
  have hip6 : gsoValidIp6 d 6 := h.hip6
  have htcp : TcpAggregate6 d v false l4Len := h.hl4
  have hmin := htcp.hmin
  have hfit := htcp.hfit
  have hvnet := htcp.hvnet (.inl rfl)
  have hsoftware := tcpSoftware6_program
    ⟨h.hheader, hip6, htcp.htype, htcp.hl4, hmin, hfit, htcp.hhdrLen, fun _ => hvnet⟩ hmtu
  have hheader : ¬gsoValidateHeader d.length v ≤ 0 := by
    rw [h.hheader]
    decide
  have hsize : ¬v.gsoSize.toNat = 0 := fun h => gsoSize_ne_zero hheader (BitVec.eq_of_toNat_eq h)
  have hip : ¬(d.length < 40 + 20 ∨ !gsoValidIp6 d 6) := by
    rw [hip6]
    simp only [Bool.not_true, Bool.false_eq_true, or_false]
    omega
  have hhdr : ¬(l4Len < 20 ∨ d.length < 40 + l4Len ∨ !gsoValidateTransportVnet d.length v 40 l4Len 16) := by
    rw [hvnet]
    simp only [Bool.not_true, Bool.false_eq_true, or_false]
    omega
  unfold checked6 gsoTranslateTcp6to4 at *
  dsimp only at *
  rw [show tcpHdrLen (gsoPkt6 d v 6).data = l4Len from htcp.hl4.symm, if_neg (not_not.2 htcp.htype), if_neg hheader,
    if_neg hip, if_neg hhdr, if_neg hsize]
  have hbig := tooBig6_iff d v 6 l4Len hmtu
  by_cases hroute : 65535 < 20 + l4Len + ((gsoPkt6 d v 6).data.drop l4Len).length
  · have hsend : GsoEntry.send6 .tcp g d v l4Len = GsoEntry.send6 .tcpSoftware g d v l4Len :=
      funext fun _ => if_pos hroute
    rw [if_pos hroute, hsoftware, if_congr hbig rfl rfl, hsend]
    exact ite_repeat
  · rw [if_neg hroute]
    refine if_congr hbig rfl (if_congr Iff.rfl rfl (congrArg _ (funext fun r => ?_)))
    cases r with
    | error handled => rfl
    | ok r => exact (if_neg hroute).symm

/-- **`gso_software_segment_and_send_udp_6to4`** tests the size first. -/
theorem udpSoftware6_program (h : Aggregate6 .udpSoftware d v l4Len) (hmtu : mtuMin ≤ g.mtu) :
    gsoSoftwareSegmentAndSendUdp6to4 g d (some v) = checked6 g (gsoPkt6 d v 17)
      (GsoEntry.TooBig6 .udpSoftware g (Ip6.ofBytes d) (largestL4 d v 40 l4Len))
      (GsoEntry.send6 .udpSoftware g d v l4Len) := by
  have hip6 : gsoValidIp6 d 17 := h.hip6
  have hudp : UdpAggregate d v 40 l4Len := h.hl4
  obtain rfl := hudp.hl4
  have hfit := hudp.hfit
  have hheader : ¬gsoValidateHeader d.length v ≤ 0 := by
    rw [h.hheader]
    decide
  have htake : ¬(v.gso ≠ vnetGsoUdpL4 ∨ gsoValidateHeader d.length v ≤ 0) :=
    not_or.2 ⟨not_not.2 hudp.htype, hheader⟩
  have hvnet : ¬(d.length < 40 + 8 ∨ !gsoValidateTransportVnet d.length v 40 8 6 ∨ !gsoValidIp6 d 17) := by
    rw [hudp.hvnet, hip6]
    simp only [Bool.not_true, Bool.false_eq_true, or_false]
    omega
  have hsized : gsoUdpSized (gsoPkt6 d v 17).data v.gsoSize.toNat := hudp.hsized
  unfold checked6 gsoSoftwareSegmentAndSendUdp6to4
  dsimp only
  rw [if_neg htake, if_neg hvnet, effectiveGsoSize_eq hheader, hsized, if_neg (show ¬(!true) = true by decide)]
  refine if_congr (tooBig6_iff d v 17 8 hmtu) rfl (if_congr Iff.rfl rfl (congrArg _ (funext fun r => ?_)))
  cases r <;> rfl

private theorem fullSeg_eq {len n : Nat} (hn : n ≠ 0) : (if len / n ≠ 0 then n else len) = maxSeg len n := by
  have hpos := Nat.pos_of_ne_zero hn
  unfold maxSeg
  by_cases hle : n ≤ len
  · rw [if_pos (Nat.div_pos hle hpos).ne']
    split <;> omega
  · rw [if_neg (not_not.2 (Nat.div_eq_of_lt (Nat.not_le.1 hle))), if_neg fun h => hle h.le]

/-- **`gso_translate_udp_6to4`** tests the hop limit first. -/
theorem udp6_program (h : Aggregate6 .udp d v l4Len) (hmtu : mtuMin ≤ g.mtu) (hmax : g.mtu < 65536) :
    gsoTranslateUdp6to4 g d (some v) = checked6 g (gsoPkt6 d v 17)
      (GsoEntry.TooBig6 .udp g (Ip6.ofBytes d) (largestL4 d v 40 l4Len)) (GsoEntry.send6 .udp g d v l4Len) := by
  have hip6 : gsoValidIp6 d 17 := h.hip6
  have hudp : UdpAggregate d v 40 l4Len := h.hl4
  have hsoftware := udpSoftware6_program ⟨h.hheader, hip6, hudp⟩ hmtu
  obtain rfl := hudp.hl4
  have hfit := hudp.hfit
  have hheader : ¬gsoValidateHeader d.length v ≤ 0 := by
    rw [h.hheader]
    decide
  have hsize : v.gsoSize.toNat ≠ 0 := fun h => gsoSize_ne_zero hheader (BitVec.eq_of_toNat_eq h)
  have hvnet : ¬(d.length < 40 + 8 ∨ !gsoValidIp6 d 17 ∨ !gsoValidateTransportVnet d.length v 40 8 6) := by
    rw [hudp.hvnet, hip6]
    simp only [Bool.not_true, Bool.false_eq_true, or_false]
    omega
  have hsized : gsoUdpSized (gsoPkt6 d v 17).data v.gsoSize.toNat := hudp.hsized
  have hlen := (of_decide_eq_true hsized).1
  have hbig := tooBig6_iff d v 17 8 hmtu
  unfold checked6 gsoTranslateUdp6to4 at *
  dsimp only at *
  rw [if_neg (not_not.2 hudp.htype), if_neg hheader, if_neg hvnet, if_neg (not_not.2 hlen), hsized,
    if_neg (show ¬(!true) = true by decide), fullSeg_eq hsize]
  have hshort : ¬(0 < g.mtu ∧ g.mtu < 40 + 8 + maxSeg ((gsoPkt6 d v 17).data.drop 8).length v.gsoSize.toNat) →
      ¬65535 < 20 + 8 + maxSeg ((gsoPkt6 d v 17).data.drop 8).length v.gsoSize.toNat := by
    unfold mtuMin at hmtu
    omega
  have htoo : GsoEntry.TooBig6 .udp g (Ip6.ofBytes d) (largestL4 d v 40 8) ↔
      ¬(gsoPkt6 d v 17).ip6.hopLimit ≤ 1 ∧ g.mtu < 40 + largestL4 d v 40 8 := by
    rw [gsoPkt6_ip6 (by omega)]
    exact Iff.rfl
  rw [ite_skip hshort, if_congr hbig rfl rfl, if_congr htoo rfl rfl]
  by_cases hroute : CutsUdp6 g (gsoPkt6 d v 17).data v.gsoSize.toNat
  · have hsend : GsoEntry.send6 .udp g d v 8 = GsoEntry.send6 .udpSoftware g d v 8 := funext fun _ => if_pos hroute
    unfold CutsUdp6 at hroute
    rw [if_pos hroute, hsoftware, hsend]
    exact ite_swapped
  · have hsend : ∀ r, GsoEntry.send6 .udp g d v 8 r = _ := fun _ => if_neg hroute
    unfold CutsUdp6 at hroute
    rw [if_neg hroute, ite_front]
    refine if_congr Iff.rfl rfl (if_congr Iff.rfl rfl (congrArg _ (funext fun r => ?_)))
    cases r with
    | error handled => rfl
    | ok r => exact (hsend r).symm

/-- **What an entry point from IPv6 does.** -/
theorem entry6_program {entry : GsoEntry} (h : Aggregate6 entry d v l4Len) (hmtu : mtuMin ≤ g.mtu)
    (hmax : g.mtu < 65536) : entry.run6 g d (some v) = checked6 g (gsoPkt6 d v entry.proto)
      (entry.TooBig6 g (Ip6.ofBytes d) (largestL4 d v 40 l4Len)) (entry.send6 g d v l4Len) := by
  cases entry with
  | tcp => exact tcp6_program h hmtu
  | tcpSoftware => exact tcpSoftware6_program h hmtu
  | udp => exact udp6_program h hmtu hmax
  | udpSoftware => exact udpSoftware6_program h hmtu

/-- An entry point from IPv6 sends IPv4 packets only. -/
theorem send6_version (entry : GsoEntry) (r : In4 × In4) :
    OnlyWrites (fun packet => version packet = 4) (entry.send6 g d v l4Len r) := by
  have htcp : OnlyWrites (fun packet => version packet = 4) (GsoEntry.send6 .tcpSoftware g d v l4Len r) :=
    reserveSegments_writes.bind fun _ => segmentLoop_writes (fun _ _ _ _ _ h => buildTcp6to4_version h) _ _ _ _
  have hudp : OnlyWrites (fun packet => version packet = 4) (GsoEntry.send6 .udpSoftware g d v l4Len r) :=
    reserveSegments_writes.bind fun _ => segmentLoop_writes (fun _ _ _ _ _ h => buildUdp6to4_version h) _ _ _ _
  cases entry with
  | tcp =>
    refine .ite (fun _ => htcp) fun _ => .ite (fun _ => ?_) fun _ => ?_
    · refine (OnlyWrites.emit gsoTcpHead_version).bind fun _ => ?_
      rw [ask_bind]
      exact ⟨trivial, fun ident => (OnlyWrites.emit gsoTcpTail_version).bind fun _ => .done _⟩
    · exact gsoIdent_writes.bind fun r => emit4_onlyWrites rfl _
  | tcpSoftware => exact htcp
  | udp => exact .ite (fun _ => hudp) fun _ => gsoIdent_writes.bind fun r => emit4_onlyWrites rfl _
  | udpSoftware => exact hudp

/-- Segments that fit an IPv4 packet are sent. -/
theorem send6_ne_nil {entry : GsoEntry} (h : Aggregate6 entry d v l4Len) (hsize : 20 + largestL4 d v 40 l4Len ≤ 65535)
    (r : In4 × In4) : written ans (entry.send6 g d v l4Len r) ≠ [] := by
  rw [← length_firstSegment] at hsize
  have htcp : written ans (GsoEntry.send6 .tcpSoftware g d v l4Len r) ≠ [] :=
    written_bind_ne_nil fun _ => segmentLoop_ne_nil (buildTcp6to4_ne_none hsize)
  have hudp (hl4 : l4Len = 8) : written ans (GsoEntry.send6 .udpSoftware g d v l4Len r) ≠ [] := by
    subst hl4
    exact written_bind_ne_nil fun _ => segmentLoop_ne_nil (buildUdp6to4_ne_none hsize)
  cases entry with
  | tcp =>
    unfold GsoEntry.send6
    dsimp only
    split
    · exact htcp
    split
    · exact List.cons_ne_nil _ _
    · exact written_bind_ne_nil fun r => emit_ne_nil
  | tcpSoftware => exact htcp
  | udp =>
    unfold GsoEntry.send6
    dsimp only
    split
    · exact hudp h.hl4.hl4
    · exact written_bind_ne_nil fun r => emit_ne_nil
  | udpSoftware => exact hudp h.hl4.hl4

/-- **What an entry point from IPv6 checks**, in front of the mapping. -/
theorem entry6_checks {entry : GsoEntry} (ans : (op : PktOp) → op.Ans) (h : Aggregate6 entry d v l4Len)
    (hmtu : mtuMin ≤ g.mtu) (hmax : g.mtu < 65536) :
    Checks6 g ans (gsoPkt6 d v entry.proto) (entry.TooBig6 g (Ip6.ofBytes d) (largestL4 d v 40 l4Len))
      (largestL4 d v 40 l4Len) (entry.run6 g d (some v)) :=
  ⟨sendMapped6 (entry.send6 g d v l4Len), ⟨fun _ => rfl, send6_version entry, send6_ne_nil h⟩,
    entry6_program h hmtu hmax⟩

private theorem gsoError6_outcome {type code : Byte} {word : BitVec 32} {p : Pkt6} (hp : p.dataProto ≠ 58) :
    outcome6 ans (gsoError6 g type code word p) = .error type code := by
  unfold outcome6 gsoError6
  rw [hostSendIcmp6Error_eq hp]
  exact errorPacket6_outcome

private theorem outcome6_map {addr6 : In6} {dynAlloc : Bool} {k : Except Error In4 → PktProg (Except Bool (In4 × In4))}
    {f : Except Bool (In4 × In4) → PktProg Bool} : outcome6 ans (.call (.mapIp6ToIp4 addr6 dynAlloc) k >>= f) =
    outcome6 ans (k (ans (.mapIp6ToIp4 addr6 dynAlloc)) >>= f) := rfl

/-- The mapping of an aggregate from IPv6 that fits. -/
private theorem gsoMap6to4WithIcmp_outcome {p : Pkt6} {size : Nat} {f : Except Bool (In4 × In4) → PktProg Bool}
    (hp : p.dataProto ≠ 58) (hf : AfterMap6 ans size f) (hsize : 20 + size ≤ 65535) (hfits : ¬g.mtu < 40 + size) :
    outcome6 ans (gsoMap6to4WithIcmp g p >>= f) =
    if p.ip6.dest = g.localAddr6 then .error 4 1 else mapOutcome6 g ans p.ip6 size := by
  have herror : ∀ type code word, outcome6 ans
      ((hostSendIcmp6Error g type code word p >>= fun _ => .done (.error true)) >>= f) = .error type code := by
    intro type code word
    unfold outcome6
    rw [hostSendIcmp6Error_eq hp]
    show Outcome.ofWritten 6 40 (errorPacket6 g type code word p :: written ans (f (.error true))) = _
    rw [hf.herror]
    exact errorPacket6_outcome
  have hrefused : outcome6 ans ((.done (.error false) : PktProg _) >>= f) = .drop := by
    unfold outcome6
    show Outcome.ofWritten 6 40 (written ans (f (.error false))) = _
    rw [hf.herror]
    rfl
  unfold gsoMap6to4WithIcmp mapOutcome6 mapVerdict6
  by_cases hdest : p.ip6.dest = g.localAddr6
  · rw [if_pos hdest, if_pos hdest]
    exact herror 4 1 6
  rw [if_neg hdest, if_neg hdest, outcome6_map]
  rcases ans (.mapIp6ToIp4 p.ip6.dest false) with (_ | _ | _) | dest
  · exact herror 1 0 0
  · exact hrefused
  · exact hrefused
  dsimp only
  rw [outcome6_map]
  rcases ans (.mapIp6ToIp4 p.ip6.src true) with (_ | _ | _) | src
  · exact herror 1 5 0
  · exact hrefused
  · exact hrefused
  dsimp only
  rw [if_neg hfits]
  exact Outcome.ofWritten_other (hf.hsends hsize (src, dest)) fun packet hmem => by
    rw [(hf.hversion (src, dest)).mem hmem]
    decide

/-- **What becomes of an aggregate from IPv6 that is checked**, if a segment that fits the MTU is not too big. -/
theorem Checks6.outcome {p : Pkt6} {tooBig : Prop} [Decidable tooBig] {size : Nat} {prog : PktProg Bool}
    (h : Checks6 g ans p tooBig size prog) (hp : p.dataProto ≠ 58) (hmax : g.mtu < 65536)
    (hbig : ¬p.ip6.hopLimit ≤ 1 → g.mtu < 40 + size → tooBig) : outcome6 ans prog =
    if tooBig then .error 2 0
    else if p.ip6.hopLimit = 0 ∨ p.ip6.hopLimit = 1 then .error 3 0
    else if p.ip6.dest = g.localAddr6 then .error 4 1
    else mapOutcome6 g ans p.ip6 size := by
  obtain ⟨f, hf, hrun⟩ := h
  rw [hrun]
  by_cases htoo : tooBig
  · rw [if_pos htoo, if_pos htoo]
    exact gsoError6_outcome hp
  rw [if_neg htoo, if_neg htoo]
  by_cases hhops : p.ip6.hopLimit ≤ 1
  · rw [if_pos hhops, if_pos (ttl_le_one.1 hhops)]
    exact gsoError6_outcome hp
  have hfits : ¬g.mtu < 40 + size := fun hlt => htoo (hbig hhops hlt)
  rw [if_neg hhops, if_neg fun h => hhops (ttl_le_one.2 h)]
  exact gsoMap6to4WithIcmp_outcome hp hf (by omega) hfits

theorem GsoEntry.tooBig6_of_exceeds {entry : GsoEntry} {h : Ip6} {size : Nat} (hhops : ¬h.hopLimit ≤ 1)
    (hlt : g.mtu < 40 + size) : entry.TooBig6 g h size := by
  cases entry with
  | tcp | tcpSoftware | udpSoftware => exact hlt
  | udp => exact ⟨hhops, hlt⟩

/-- **What becomes of an aggregate from IPv6.** -/
theorem entry6_outcome {entry : GsoEntry} (h : Aggregate6 entry d v l4Len) (hmtu : mtuMin ≤ g.mtu)
    (hmax : g.mtu < 65536) (hlen : 40 ≤ d.length) : outcome6 ans (entry.run6 g d (some v)) =
    if entry.TooBig6 g (Ip6.ofBytes d) (largestL4 d v 40 l4Len) then .error 2 0
    else if (Ip6.ofBytes d).hopLimit = 0 ∨ (Ip6.ofBytes d).hopLimit = 1 then .error 3 0
    else if (Ip6.ofBytes d).dest = g.localAddr6 then .error 4 1
    else mapOutcome6 g ans (Ip6.ofBytes d) (largestL4 d v 40 l4Len) := by
  have hout := (entry6_checks ans h hmtu hmax).outcome (show (gsoPkt6 d v entry.proto).dataProto ≠ 58 from
    entry.isTransport_proto.ne_icmp.2) hmax
  rw [gsoPkt6_ip6 hlen] at hout
  exact hout GsoEntry.tooBig6_of_exceeds

/-! ### Parity -/

/-- `s` is the first segment of an aggregate from IPv4 as a packet of its own, with its checksum complete. -/
structure FirstSegment4 (entry : GsoEntry) (e : Endian) (d : List Byte) (v : VnetHdr) (ihl l4Len : Nat)
    (s : List Byte) : Prop extends LargestSegment e d v ihl l4Len s where
  hcomplete : CompleteCsum entry.proto (s.drop ihl)

/-- `s` is the first segment of an aggregate from IPv6 as a packet of its own: it has the header of the aggregate up to
the length, its ports, and the first segment of its payload, with its checksum complete. -/
structure FirstSegment6 (entry : GsoEntry) (d : List Byte) (v : VnetHdr) (l4Len : Nat) (s : List Byte) : Prop where
  hheader : ∃ length, Ip6.ofBytes s = { Ip6.ofBytes d with payloadLength := length }
  hports : (s.drop 40).take 4 = (d.drop 40).take 4
  hpayload : s.drop (40 + l4Len) = (d.drop (40 + l4Len)).take v.gsoSize.toNat
  hfit : 40 + l4Len ≤ s.length
  hlength : (Ip6.ofBytes s).payloadLength.toNat + 40 = s.length
  hcomplete : CompleteCsum entry.proto (s.drop 40)

/-- The packet is sent on to IPv4, if it fits: it has hops left, is not for the translator and both its addresses are
mapped. -/
structure Forwardable6 (g : Gcfg) (ans : (op : PktOp) → op.Ans) (h : Ip6) : Prop where
  hhops : h.hopLimit ≠ 0 ∧ h.hopLimit ≠ 1
  hdest : h.dest ≠ g.localAddr6
  hmapped : Mapped6 ans h.dest false ∧ Mapped6 ans h.src true

/-- The checks of an entry point and of the data path for IPv4 packets have the same outcome: no TTL of 0, no expired
TTL for the translator itself, and a size refused in front of the other checks is refused behind them as well. -/
structure SameOutcome4 (entry : GsoEntry) (g : Gcfg) (ans : (op : PktOp) → op.Ans) (h : Ip4) (ihl size : Nat) :
    Prop where
  hzero : h.ttl ≠ 0
  hself : h.ttl = 1 → h.dest ≠ g.localAddr4
  hbig : h.flagsOffset &&& ip4FDf ≠ 0 → entry.TooBig g h ihl size → Forwardable g ans h ∧ g.mtu < 40 + size

/-- The same for IPv6 packets. -/
structure SameOutcome6 (entry : GsoEntry) (g : Gcfg) (ans : (op : PktOp) → op.Ans) (h : Ip6) (size : Nat) : Prop where
  hzero : h.hopLimit ≠ 0
  hself : h.hopLimit = 1 → h.dest ≠ g.localAddr6
  hbig : entry.TooBig6 g h size → Forwardable6 g ans h

theorem mapOutcome4_tooBig {h : Ip4} {size : Nat} : mapOutcome4 g ans h size = .error 3 4 ↔
    (Mapped ans h.dest ∧ Mapped ans h.src) ∧ DontFragment h ∧ g.mtu < 40 + size := by
  unfold mapOutcome4 mapVerdict4 Mapped
  rcases ans (.mapIp4ToIp6 h.dest) with (_ | _ | _) | dest
  · simp [Verdict.fitting, Verdict.outcome]
  · simp [Verdict.fitting, Verdict.outcome]
  · simp [Verdict.fitting, Verdict.outcome]
  rcases ans (.mapIp4ToIp6 h.src) with (_ | _ | _) | src
  · simp [Verdict.fitting, Verdict.outcome]
  · simp [Verdict.fitting, Verdict.outcome]
  · simp [Verdict.fitting, Verdict.outcome]
  dsimp only [Verdict.fitting]
  by_cases hbig : DontFragment h ∧ g.mtu < 40 + size
  · rw [if_pos hbig]
    exact iff_of_true rfl ⟨⟨⟨dest, rfl⟩, src, rfl⟩, hbig⟩
  · rw [if_neg hbig]
    exact iff_of_false (by simp [Verdict.outcome]) fun h => hbig h.2

theorem mapOutcome6_tooBig {h : Ip6} {size : Nat} : mapOutcome6 g ans h size = .error 2 0 ↔
    (Mapped6 ans h.dest false ∧ Mapped6 ans h.src true) ∧ g.mtu < 40 + size := by
  unfold mapOutcome6 mapVerdict6 Mapped6
  rcases ans (.mapIp6ToIp4 h.dest false) with (_ | _ | _) | dest
  · simp [Verdict.outcome]
  · simp [Verdict.outcome]
  · simp [Verdict.outcome]
  rcases ans (.mapIp6ToIp4 h.src true) with (_ | _ | _) | src
  · simp [Verdict.outcome]
  · simp [Verdict.outcome]
  · simp [Verdict.outcome]
  dsimp only
  by_cases hbig : g.mtu < 40 + size
  · rw [if_pos hbig]
    exact iff_of_true rfl ⟨⟨⟨dest, rfl⟩, src, rfl⟩, hbig⟩
  · rw [if_neg hbig]
    exact iff_of_false (by simp [Verdict.outcome]) fun h => hbig h.2

theorem Aggregate6.length {entry : GsoEntry} (h : Aggregate6 entry d v l4Len) : 40 ≤ d.length := by
  have hl4 := h.hl4
  cases entry with
  | tcp | tcpSoftware => exact (Nat.le_add_right 40 l4Len).trans (TcpAggregate6.hfit hl4)
  | udp | udpSoftware => exact (Nat.le_add_right 40 l4Len).trans (UdpAggregate.hfit hl4)

theorem FirstSegment6.length {entry : GsoEntry} (h : FirstSegment6 entry d v l4Len s) :
    s.length - 40 = largestL4 d v 40 l4Len := by
  have hpayload := congrArg List.length h.hpayload
  have hfit := h.hfit
  rw [List.length_drop, List.length_take, List.length_drop] at hpayload
  unfold largestL4 maxSeg
  split <;> omega

theorem GsoEntry.TooBig6.exceeds {entry : GsoEntry} {h : Ip6} {size : Nat} (htoo : entry.TooBig6 g h size) :
    g.mtu < 40 + size := by
  cases entry with
  | tcp | tcpSoftware | udpSoftware => exact htoo
  | udp => exact htoo.2

private theorem parity4 {entry : GsoEntry} {offload : Bool} (hmtu : mtuMin ≤ g.mtu) (hplain : isGso vhdr = false)
    (hneeds : needsCsum vhdr = false) (h : Aggregate4 entry g d v ihl l4Len)
    (hs : FirstSegment4 entry g.endian d v ihl l4Len s) :
    outcome4 ans (entry.run g d (some v)) = outcome4 ans (handleIp4 g offload s vhdr) ↔
    SameOutcome4 entry g ans (Ip4.ofBytes d) ihl (largestL4 d v ihl l4Len) := by
  obtain ⟨hvalid, hwhole⟩ := gsoValidateIpv4Header_valid h.hip4
  obtain ⟨length, ident, cksum, hheader⟩ := hs.hheader
  have hlength := hs.hlength
  have hmax := (Ip4.ofBytes s).length.isLt
  have hsize := hs.length
  have hswhole : (Ip4.ofBytes s).flagsOffset &&& (ip4FMask ||| ip4FMf) = 0 := by
    rw [hheader]
    exact hwhole
  rw [entry_outcome h hmtu (by omega),
    plain4_outcome (hs.valid hvalid) hswhole hlength hs.hcomplete hplain hneeds, hsize, hheader]
  refine (orders_agree (by decide) (by decide)).trans ?_
  show _ ∧ _ ∧ (_ → _ ∧ _ ∧ mapOutcome4 g ans (Ip4.ofBytes d) _ = _) ↔ _
  rw [mapOutcome4_tooBig]
  constructor
  · rintro ⟨hzero, hself, hbig⟩
    refine ⟨hzero, hself, fun hdf htoo => ?_⟩
    obtain ⟨hone, hdest, hmapped, -, hlt⟩ := hbig ⟨hdf, htoo⟩
    exact ⟨⟨⟨hzero, hone⟩, hdest, hmapped⟩, hlt⟩
  · rintro ⟨hzero, hself, hbig⟩
    refine ⟨hzero, hself, fun htoo => ?_⟩
    obtain ⟨hf, hlt⟩ := hbig htoo.1 htoo.2
    exact ⟨hf.httl.2, hf.hdest, hf.hmapped, ⟨hwhole, htoo.1⟩, hlt⟩

private theorem parity6 {entry : GsoEntry} {offload : Bool} (hmtu : mtuMin ≤ g.mtu) (hmax : g.mtu < 65536)
    (hplain : isGso vhdr = false) (hneeds : needsCsum vhdr = false) (h : Aggregate6 entry d v l4Len)
    (hs : FirstSegment6 entry d v l4Len s) :
    outcome6 ans (entry.run6 g d (some v)) = outcome6 ans (handleIp6 g offload s vhdr) ↔
    SameOutcome6 entry g ans (Ip6.ofBytes d) (largestL4 d v 40 l4Len) := by
  obtain ⟨length, hheader⟩ := hs.hheader
  have hfit := hs.hfit
  have hlength := hs.hlength
  have hvalid := of_decide_eq_true h.hip6
  have hsvalid : gsoValidIp6 s entry.proto := by
    refine decide_eq_true ⟨?_, ?_, by omega, ?_, ?_⟩
    all_goals rw [hheader]
    · exact hvalid.1
    · exact hvalid.2.1
    · exact hvalid.2.2.2.1
    · exact hvalid.2.2.2.2
  rw [entry6_outcome h hmtu hmax h.length, plain6_outcome hsvalid (by omega) hs.hcomplete hplain hneeds, hs.length,
    hheader]
  refine (orders_agree (by decide) (by decide)).trans ?_
  show _ ∧ _ ∧ (_ → _ ∧ _ ∧ mapOutcome6 g ans (Ip6.ofBytes d) _ = _) ↔ _
  rw [mapOutcome6_tooBig]
  constructor
  · rintro ⟨hzero, hself, hbig⟩
    refine ⟨hzero, hself, fun htoo => ?_⟩
    obtain ⟨hone, hdest, hmapped, -⟩ := hbig htoo
    exact ⟨⟨hzero, hone⟩, hdest, hmapped⟩
  · rintro ⟨hzero, hself, hbig⟩
    refine ⟨hzero, hself, fun htoo => ?_⟩
    have hf := hbig htoo
    exact ⟨hf.hhops.2, hf.hdest, hf.hmapped, htoo.exceeds⟩

/-- **An aggregate and its first segment end alike**, exactly if no two checks that the paths make in different orders
fail at once and no TTL is 0.  (The MTU is a 16-bit number.) -/
theorem gso_parity (entry : GsoEntry) (g : Gcfg) (offload : Bool) (vhdr : Option VnetHdr) (ans : (op : PktOp) → op.Ans)
    (hmtu : mtuMin ≤ g.mtu) (hmax : g.mtu < 65536) (hplain : isGso vhdr = false) (hneeds : needsCsum vhdr = false) :
    (∀ d v ihl l4Len s, Aggregate4 entry g d v ihl l4Len → FirstSegment4 entry g.endian d v ihl l4Len s →
      (outcome4 ans (entry.run g d (some v)) = outcome4 ans (handleIp4 g offload s vhdr) ↔
        SameOutcome4 entry g ans (Ip4.ofBytes d) ihl (largestL4 d v ihl l4Len))) ∧
    ∀ d v l4Len s, Aggregate6 entry d v l4Len → FirstSegment6 entry d v l4Len s →
      (outcome6 ans (entry.run6 g d (some v)) = outcome6 ans (handleIp6 g offload s vhdr) ↔
        SameOutcome6 entry g ans (Ip6.ofBytes d) (largestL4 d v 40 l4Len)) :=
  ⟨fun _ _ _ _ _ h hs => parity4 hmtu hplain hneeds h hs, fun _ _ _ _ h hs => parity6 hmtu hmax hplain hneeds h hs⟩

/-- A UDP datagram of zeros from IPv6, with `data` bytes of payload. -/
def udpDatagram6 (hopLimit : Byte) (dest : In6) (data : Nat) : List Byte :=
  (Ip6.mk 0x60000000 (BitVec.ofNat 16 (8 + data)) 17 hopLimit 0x20010db80000000000000000c0000205 dest).toBytes ++
    ((UdpHdr.mk 0x3039 0x35 (BitVec.ofNat 16 (8 + data)) 0x1234).toBytes ++ List.replicate data 0)

/-- The virtio header of an aggregate of segments of eight bytes. -/
def udpGso6 : VnetHdr := ⟨1, vnetGsoUdpL4, 48, 8, 40, 6, 0⟩

/-- The last hop of two segments to the translator itself. -/
private theorem lastHop_aggregate : Aggregate6 .udp (udpDatagram6 1 sampleGcfg.localAddr6 16) udpGso6 8 :=
  ⟨by decide +kernel, by decide +kernel, by decide +kernel, by decide +kernel, by decide +kernel, by decide +kernel,
    by decide +kernel⟩

private theorem lastHop_first : FirstSegment6 .udp (udpDatagram6 1 sampleGcfg.localAddr6 16) udpGso6 8
    (udpDatagram6 1 sampleGcfg.localAddr6 8) :=
  ⟨⟨16, by decide +kernel⟩, by decide +kernel, by decide +kernel, by decide +kernel, by decide +kernel,
    .inr ⟨rfl, by decide +kernel, by decide +kernel⟩⟩

theorem gso_parity_sample :
    (outcome4 sampleAns (GsoEntry.udp.run sampleGcfg sampleAggregate (some sampleUdpGso)) =
        outcome4 sampleAns (handleIp4 sampleGcfg true sampleSegment none) ↔
      SameOutcome4 .udp sampleGcfg sampleAns (Ip4.ofBytes sampleAggregate) 24
        (largestL4 sampleAggregate sampleUdpGso 24 8)) ∧
    (outcome6 sampleAns (GsoEntry.udp.run6 sampleGcfg (udpDatagram6 1 sampleGcfg.localAddr6 16) (some udpGso6)) =
        outcome6 sampleAns (handleIp6 sampleGcfg true (udpDatagram6 1 sampleGcfg.localAddr6 8) none) ↔
      SameOutcome6 .udp sampleGcfg sampleAns (Ip6.ofBytes (udpDatagram6 1 sampleGcfg.localAddr6 16))
        (largestL4 (udpDatagram6 1 sampleGcfg.localAddr6 16) udpGso6 40 8)) :=
  have h := gso_parity .udp sampleGcfg true none sampleAns (by decide) (by decide) rfl rfl
  ⟨h.1 _ _ _ _ _ sampleAggregate_aggregate ⟨sampleSegment_largest, .inr ⟨rfl, by decide +kernel, by decide +kernel⟩⟩,
    h.2 _ _ _ _ lastHop_aggregate lastHop_first⟩

/-- The aggregate has an expired hop limit, and its first segment an unknown next header. -/
theorem not_parity_lastHop : Aggregate6 .udp (udpDatagram6 1 sampleGcfg.localAddr6 16) udpGso6 8 ∧
    FirstSegment6 .udp (udpDatagram6 1 sampleGcfg.localAddr6 16) udpGso6 8 (udpDatagram6 1 sampleGcfg.localAddr6 8) ∧
    outcome6 sampleAns (GsoEntry.udp.run6 sampleGcfg (udpDatagram6 1 sampleGcfg.localAddr6 16) (some udpGso6)) =
      .error 3 0 ∧
    outcome6 sampleAns (handleIp6 sampleGcfg true (udpDatagram6 1 sampleGcfg.localAddr6 8) none) = .error 4 1 :=
  ⟨lastHop_aggregate, lastHop_first, by decide +kernel, by decide +kernel⟩

end Tayga
