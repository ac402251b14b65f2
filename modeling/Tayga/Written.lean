import Tayga.Translate

/-!
# What the packet functions write

Whatever the address mapper and the writes answer: in the direction to IPv4 the translator writes ICMPv6 messages of
its own and IPv4 packets with the protocol of the packet at hand (`handleIp6_writes`), in the direction to IPv6 ICMP
messages of its own and IPv6 packets, whole or in fragments, with that protocol as their upper layer
(`handleIp4_writes`).
-/

namespace Tayga

open Program

/-! ### Programs that only write certain packets -/

/-- The operation writes no packet outside `P`. -/
def Writes (P : List Byte → Prop) : PktOp → Prop
  | .write _ packet => P packet
  | _ => True

/-- Whatever the answers, every packet written is one of `P`. -/
def OnlyWrites {α : Type} (P : List Byte → Prop) (prog : PktProg α) : Prop := prog.Asks (Writes P) fun _ => True

namespace OnlyWrites

variable {α β : Type} {P : List Byte → Prop}

theorem done (a : α) : OnlyWrites P (.done a) := trivial

theorem emit {vhdr : Option VnetHdr} {packet : List Byte} (h : P packet) : OnlyWrites P (emit vhdr packet) :=
  ⟨h, fun _ => trivial⟩

theorem bind {prog : PktProg α} {f : α → PktProg β} (hprog : OnlyWrites P prog) (hf : ∀ a, OnlyWrites P (f a)) :
    OnlyWrites P (prog >>= f) :=
  Asks.bind hprog fun a _ => hf a

theorem ite {c : Prop} [Decidable c] {p q : PktProg α} (hp : c → OnlyWrites P p) (hq : ¬c → OnlyWrites P q) :
    OnlyWrites P (if c then p else q) :=
  Asks.ite hp hq

theorem mono {P' : List Byte → Prop} {prog : PktProg α} (h : OnlyWrites P prog) (hP : ∀ packet, P packet → P' packet) :
    OnlyWrites P' prog := by
  refine Asks.mono h (fun op hop => ?_) fun _ _ => trivial
  cases op with
  | write vhdr packet => exact hP packet hop
  | _ => trivial

theorem statsDrop (len : Nat) : OnlyWrites P (statsDrop len) := ⟨trivial, fun _ => trivial⟩

end OnlyWrites

/-- The packet a `write` writes. -/
def PktOp.output : PktOp → Option (List Byte)
  | .write _ packet => some packet
  | _ => none

/-- The packets written when every operation has its fixed answer. -/
def written {α : Type} (ans : (op : PktOp) → op.Ans) (prog : PktProg α) : List (List Byte) :=
  (prog.asked ans).filterMap PktOp.output

section Written

variable {α β : Type} {ans : (op : PktOp) → op.Ans}

@[simp] theorem written_done (a : α) : written ans (.done a) = [] := rfl

@[simp] theorem written_bind (prog : PktProg α) (f : α → PktProg β) :
    written ans (prog >>= f) = written ans prog ++ written ans (f (prog.answer ans)) := by
  unfold written
  rw [asked_bind, List.filterMap_append]

/-- A packet written in an environment is one of `P`. -/
theorem OnlyWrites.mem {P : List Byte → Prop} {prog : PktProg α} (h : OnlyWrites P prog) {packet : List Byte}
    (hmem : packet ∈ written ans prog) : P packet := by
  obtain ⟨op, hop, hpacket⟩ := List.mem_filterMap.1 hmem
  have hwrites := Asks.asked h ans op hop
  cases op with
  | write vhdr q =>
    cases hpacket
    exact hwrites
  | _ => cases hpacket

end Written

/-! ### The first bytes of a packet -/

theorem Ip4.getU8_toBytes (h : Ip4) (rest : List Byte) :
    getU8 (h.toBytes ++ rest) 0 = h.verIhl ∧ getU8 (h.toBytes ++ rest) 9 = h.proto := ⟨rfl, rfl⟩

theorem Ip6.getU8_toBytes (h : Ip6) (rest : List Byte) :
    getU8 (h.toBytes ++ rest) 0 = byte4 h.verTcFl 0 ∧ getU8 (h.toBytes ++ rest) 6 = h.nextHeader ∧
    getU8 (h.toBytes ++ rest) 40 = getU8 rest 0 := ⟨rfl, rfl, rfl⟩

/-- The version of a packet. -/
def version (packet : List Byte) : Byte := getU8 packet 0 >>> 4

theorem Ip4.version_toBytes {h : Ip4} (hv : h.verIhl = 0x45) (rest : List Byte) : version (h.toBytes ++ rest) = 4 := by
  rw [version, (h.getU8_toBytes rest).1, hv]
  rfl

/-- The first word of an IPv6 header the translator writes. -/
def verTc (tc : Byte) : BitVec 32 := 0x60000000 ||| tc.setWidth 32 <<< 20

theorem Ip6.version_toBytes {h : Ip6} {tc : Byte} (hv : h.verTcFl = verTc tc) (rest : List Byte) :
    version (h.toBytes ++ rest) = 6 := by
  have hall : ∀ tc, byte4 (verTc tc) 0 >>> 4 = 6 := by decide +kernel
  rw [version, (h.getU8_toBytes rest).1, hv, hall]

/-- The loop of the software emitters writes what its segments are built as. -/
theorem segmentLoop_writes {P : List Byte → Prop} {gsoSize : Nat} {build : SegmentBuilder}
    (hbuild : ∀ offset isLast nextId seg r, build offset isLast nextId seg = some r → P r.1) (n offset : Nat)
    (nextId : BitVec 16) (payload : List Byte) : OnlyWrites P (segmentLoop gsoSize build n offset nextId payload) := by
  induction n generalizing offset nextId payload with
  | zero => trivial
  | succ n ih =>
    unfold segmentLoop
    dsimp only
    split
    · trivial
    · next packet nextId' hr =>
      refine ⟨hbuild _ _ _ _ _ hr, fun ret => ?_⟩
      exact OnlyWrites.ite (fun _ => trivial) fun _ => OnlyWrites.ite (fun _ => trivial) fun _ => ih _ _ _

/-! ### To IPv4 -/

/-- What the direction to IPv4 writes: IPv6 packets of its own, and IPv4 packets with a protocol of `Q`. -/
inductive Wrote6to4 (Q : Byte → Prop) : List Byte → Prop where
  | ip6 {h : Ip6} {tc : Byte} (rest : List Byte) (hv : h.verTcFl = verTc tc) : Wrote6to4 Q (h.toBytes ++ rest)
  | ip4 {h : Ip4} (rest : List Byte) (hv : h.verIhl = 0x45) (hq : Q h.proto) : Wrote6to4 Q (h.toBytes ++ rest)

/-- The protocol an IPv6 upper layer has in IPv4. -/
def proto6to4 (proto : Byte) : Byte := if proto = 58 then 1 else proto

section To4

variable {g : Gcfg} {d : List Byte} {Q : Byte → Prop} {vhdr : Option VnetHdr}

private theorem hostSendIcmp6_writes {e : Endian} {tc : Byte} {src dest : In6} {icmp : Icmp} :
    OnlyWrites (Wrote6to4 Q) (hostSendIcmp6 e tc src dest icmp d) := by
  refine OnlyWrites.emit ?_
  rw [List.append_assoc]
  exact .ip6 _ rfl

private theorem hostSendIcmp6Error_writes {type code : Byte} {word : BitVec 32} {p : Pkt6} :
    OnlyWrites (Wrote6to4 Q) (hostSendIcmp6Error g type code word p) :=
  OnlyWrites.ite (fun _ => .done _) fun _ => hostSendIcmp6_writes

private theorem gsoError6_writes {type code : Byte} {word : BitVec 32} {p : Pkt6} :
    OnlyWrites (Wrote6to4 Q) (gsoError6 g type code word p) :=
  hostSendIcmp6Error_writes.bind fun _ => .done _

/-- Mapping the addresses of an aggregate asks the mapper, and sends at most an ICMP error. -/
theorem gsoMap6to4WithIcmp_asks {P : PktOp → Prop} {p : Pkt6}
    (hmap : ∀ addr6 dynAlloc, P (.mapIp6ToIp4 addr6 dynAlloc))
    (herror : ∀ type ∈ ([1, 4] : List Byte), ∀ code word,
      (hostSendIcmp6Error g type code word p).Asks P fun _ => True) :
    (gsoMap6to4WithIcmp g p).Asks P fun _ => True := by
  have hsent : ∀ type ∈ ([1, 4] : List Byte), ∀ code word, ((hostSendIcmp6Error g type code word p >>= fun _ =>
      .done (.error true)) : PktProg (Except Bool (In4 × In4))).Asks P fun _ => True :=
    fun type htype code word => (herror type htype code word).bind fun _ _ => trivial
  refine Asks.ite (fun _ => hsent 4 (by decide) _ _) fun _ => ⟨hmap _ _, fun r => ?_⟩
  rcases r with (_ | _ | _) | dst4
  · exact hsent 1 (by decide) _ _
  · trivial
  · trivial
  refine ⟨hmap _ _, fun r => ?_⟩
  rcases r with (_ | _ | _) | src4
  · exact hsent 1 (by decide) _ _
  all_goals trivial

private theorem gsoMap6to4WithIcmp_writes {p : Pkt6} : OnlyWrites (Wrote6to4 Q) (gsoMap6to4WithIcmp g p) :=
  gsoMap6to4WithIcmp_asks (fun _ _ => trivial) fun _ _ _ _ => hostSendIcmp6Error_writes

theorem segmentIp4_header {e : Endian} {p : Pkt6} {src4 dst4 : In4} {nextId : BitVec 16} {len : Nat} :
    (segmentIp4 e p src4 dst4 nextId len).1.verIhl = 0x45 ∧
    (segmentIp4 e p src4 dst4 nextId len).1.proto = p.dataProto := by
  unfold segmentIp4
  split <;> exact ⟨rfl, rfl⟩

private theorem buildTcp6to4_writes {e : Endian} {p : Pkt6} {tcp : TcpHdr} {l4Len : Nat} {src4 dst4 : In4}
    (hq : Q p.dataProto) {offset : Nat} {isLast : Bool} {nextId : BitVec 16} {seg : List Byte}
    {r : List Byte × BitVec 16} (hr : buildTcp6to4 e p tcp l4Len src4 dst4 offset isLast nextId seg = some r) :
    Wrote6to4 Q r.1 := by
  unfold buildTcp6to4 at hr
  dsimp only at hr
  split at hr
  · cases hr
  · cases hr
    dsimp only
    rw [List.append_assoc]
    exact .ip4 _ segmentIp4_header.1 (by rwa [segmentIp4_header.2])

private theorem buildUdp6to4_writes {e : Endian} {p : Pkt6} {udp : UdpHdr} {src4 dst4 : In4} (hq : Q p.dataProto)
    {offset : Nat} {isLast : Bool} {nextId : BitVec 16} {seg : List Byte} {r : List Byte × BitVec 16}
    (hr : buildUdp6to4 e p udp src4 dst4 offset isLast nextId seg = some r) : Wrote6to4 Q r.1 := by
  unfold buildUdp6to4 at hr
  dsimp only at hr
  split at hr
  · cases hr
  · cases hr
    dsimp only
    rw [List.append_assoc]
    exact .ip4 _ segmentIp4_header.1 (by rwa [segmentIp4_header.2])

theorem reserveSegments_writes {P : List Byte → Prop} {count : BitVec 16} : OnlyWrites P (reserveSegments count) :=
  OnlyWrites.ite (fun _ => .done _) fun _ => ⟨trivial, fun _ => trivial⟩

private theorem gsoSoftwareSegmentAndSend6to4_writes (hq : gsoValidIp6 d 6 → Q 6) :
    OnlyWrites (Wrote6to4 Q) (gsoSoftwareSegmentAndSend6to4 g d vhdr) := by
  cases vhdr with
  | none => trivial
  | some v =>
    unfold gsoSoftwareSegmentAndSend6to4
    refine OnlyWrites.ite (fun _ => .done _) fun _ => OnlyWrites.ite (fun _ => .done _) fun hvalid => ?_
    have hq : Q 6 := hq (by simpa using (not_or.1 hvalid).2)
    refine OnlyWrites.ite (fun _ => .done _) fun _ => OnlyWrites.ite (fun _ => .done _) fun _ =>
      OnlyWrites.ite (fun _ => gsoError6_writes) fun _ => OnlyWrites.ite (fun _ => gsoError6_writes) fun _ => ?_
    refine gsoMap6to4WithIcmp_writes.bind fun r => ?_
    rcases r with handled | ⟨src4, dst4⟩
    · trivial
    · exact reserveSegments_writes.bind fun nextId =>
        segmentLoop_writes (fun _ _ _ _ _ hr => buildTcp6to4_writes hq hr) _ _ _ _

private theorem gsoSoftwareSegmentAndSendUdp6to4_writes (hq : gsoValidIp6 d 17 → Q 17) :
    OnlyWrites (Wrote6to4 Q) (gsoSoftwareSegmentAndSendUdp6to4 g d vhdr) := by
  cases vhdr with
  | none => trivial
  | some v =>
    unfold gsoSoftwareSegmentAndSendUdp6to4
    refine OnlyWrites.ite (fun _ => .done _) fun _ => OnlyWrites.ite (fun _ => .done _) fun hvalid => ?_
    have hq : Q 17 := hq (by simpa using (not_or.1 (not_or.1 hvalid).2).2)
    refine OnlyWrites.ite (fun _ => .done _) fun _ => OnlyWrites.ite (fun _ => gsoError6_writes) fun _ =>
      OnlyWrites.ite (fun _ => gsoError6_writes) fun _ => ?_
    refine gsoMap6to4WithIcmp_writes.bind fun r => ?_
    rcases r with handled | ⟨src4, dst4⟩
    · trivial
    · exact reserveSegments_writes.bind fun nextId =>
        segmentLoop_writes (fun _ _ _ _ _ hr => buildUdp6to4_writes hq hr) _ _ _ _

theorem gsoIdent_writes {P : List Byte → Prop} {maxLen payloadLen gsoSize : Nat} :
    OnlyWrites P (gsoIdent maxLen payloadLen gsoSize) :=
  OnlyWrites.ite (fun _ => ⟨trivial, fun _ => trivial⟩) fun _ => .done _

private theorem gsoTcpHead_writes {v : VnetHdr} {p : Pkt6} {l4Len headLen : Nat} {src4 dst4 : In4} (hq : Q 6) :
    Wrote6to4 Q (gsoTcpHead g v p l4Len headLen src4 dst4).2 := by
  unfold gsoTcpHead
  dsimp only
  rw [List.append_assoc]
  exact .ip4 _ rfl hq

private theorem gsoTcpTail_writes {p : Pkt6} {l4Len headLen : Nat} {src4 dst4 : In4} {ident : BitVec 16} (hq : Q 6) :
    Wrote6to4 Q (gsoTcpTail g p l4Len headLen src4 dst4 ident).2 := by
  unfold gsoTcpTail
  dsimp only
  split
  all_goals
    dsimp only
    rw [List.append_assoc]
    exact .ip4 _ rfl hq

private theorem gsoTranslateTcp6to4_writes (hq : gsoValidIp6 d 6 → Q 6) :
    OnlyWrites (Wrote6to4 Q) (gsoTranslateTcp6to4 g d vhdr) := by
  cases vhdr with
  | none => trivial
  | some v =>
    unfold gsoTranslateTcp6to4
    refine OnlyWrites.ite (fun _ => .done _) fun _ => OnlyWrites.ite (fun _ => .done _) fun _ =>
      OnlyWrites.ite (fun _ => .done _) fun hvalid => ?_
    have hq : Q 6 := hq (by simpa using (not_or.1 hvalid).2)
    refine OnlyWrites.ite (fun _ => .done _) fun _ => OnlyWrites.ite (fun _ => .done _) fun _ =>
      OnlyWrites.ite (fun _ => gsoError6_writes) fun _ => OnlyWrites.ite (fun _ => gsoError6_writes) fun _ =>
      OnlyWrites.ite (fun _ => gsoSoftwareSegmentAndSend6to4_writes fun _ => hq) fun _ => ?_
    refine gsoMap6to4WithIcmp_writes.bind fun r => ?_
    rcases r with handled | ⟨src4, dst4⟩
    · trivial
    refine OnlyWrites.ite (fun _ => ?_) fun _ => ?_
    · refine (OnlyWrites.emit (gsoTcpHead_writes hq)).bind fun _ => ?_
      rw [ask_bind]
      exact ⟨trivial, fun ident => (OnlyWrites.emit (gsoTcpTail_writes hq)).bind fun _ => .done _⟩
    · exact gsoIdent_writes.bind fun r => OnlyWrites.bind (OnlyWrites.emit (.ip4 _ rfl hq)) fun _ => .done _

private theorem gsoTranslateUdp6to4_writes (hq : gsoValidIp6 d 17 → Q 17) :
    OnlyWrites (Wrote6to4 Q) (gsoTranslateUdp6to4 g d vhdr) := by
  cases vhdr with
  | none => trivial
  | some v =>
    unfold gsoTranslateUdp6to4
    refine OnlyWrites.ite (fun _ => .done _) fun _ => OnlyWrites.ite (fun _ => .done _) fun _ =>
      OnlyWrites.ite (fun _ => .done _) fun hvalid => ?_
    have hq : Q 17 := hq (by simpa using (not_or.1 (not_or.1 hvalid).2).1)
    refine OnlyWrites.ite (fun _ => .done _) fun _ => OnlyWrites.ite (fun _ => gsoError6_writes) fun _ =>
      OnlyWrites.ite (fun _ => .done _) fun _ => OnlyWrites.ite (fun _ => gsoError6_writes) fun _ =>
      OnlyWrites.ite (fun _ => .done _) fun _ =>
      OnlyWrites.ite (fun _ => gsoSoftwareSegmentAndSendUdp6to4_writes fun _ => hq) fun _ => ?_
    refine gsoMap6to4WithIcmp_writes.bind fun r => ?_
    rcases r with handled | ⟨src4, dst4⟩
    · trivial
    · exact gsoIdent_writes.bind fun r => OnlyWrites.bind (OnlyWrites.emit (.ip4 _ rfl hq)) fun _ => .done _

theorem xlateHeader6to4_asks {P : PktOp → Prop} {p : Pkt6} {src dest : In4} {len : Nat}
    (hP : P (.reserveIp4Ident 1)) : (xlateHeader6to4 p src dest len).Asks P fun h =>
    h.verIhl = 0x45 ∧ h.proto = proto6to4 p.dataProto := by
  refine Asks.bind (Q := fun _ => True) ?_ fun r _ => ⟨rfl, rfl⟩
  unfold xlateIdent6to4
  split
  · trivial
  · exact Asks.ite (fun _ => ⟨hP, fun _ => trivial⟩) fun _ => trivial

/-- The payload of a packet is translated for some new addresses. -/
def PayloadTranslated6 (g : Gcfg) (p : Pkt6) : Prop := ∃ ip4 q, xlatePayload6to4 g p ip4 false = some q

private theorem xlate6to4Data_writes {p : Pkt6}
    (hq : 40 + p.data.length ≤ g.mtu → PayloadTranslated6 g p → Q (proto6to4 p.dataProto)) :
    OnlyWrites (Wrote6to4 Q) (xlate6to4Data g p) := by
  refine ⟨trivial, fun r => ?_⟩
  rcases r with (_ | _ | _) | dest
  · exact (OnlyWrites.statsDrop _).bind fun _ => hostSendIcmp6Error_writes
  · exact OnlyWrites.statsDrop _
  · exact OnlyWrites.statsDrop _
  refine ⟨trivial, fun r => ?_⟩
  rcases r with (_ | _ | _) | src
  · exact (OnlyWrites.statsDrop _).bind fun _ => hostSendIcmp6Error_writes
  · exact OnlyWrites.statsDrop _
  · exact OnlyWrites.statsDrop _
  refine OnlyWrites.ite (fun _ => hostSendIcmp6Error_writes) fun hmtu => ?_
  refine Asks.bind (xlateHeader6to4_asks trivial) fun h hh => ?_
  dsimp only
  split
  · exact OnlyWrites.statsDrop _
  · next q hpayload =>
    have hq := hq (Nat.not_lt.1 hmtu) ⟨_, q, hpayload⟩
    exact OnlyWrites.emit (.ip4 _ hh.1 (hh.2 ▸ hq))

private theorem xlate6to4IcmpErrorEmit_writes {p : Pkt6} {icmp : Icmp} {emHeader emData : List Byte}
    (hq : Q (proto6to4 p.dataProto)) : OnlyWrites (Wrote6to4 Q) (xlate6to4IcmpErrorEmit g p icmp emHeader emData) := by
  refine ⟨trivial, fun r => ⟨trivial, fun r => ?_⟩⟩
  rcases r with _ | dest
  · trivial
  · refine Asks.bind (xlateHeader6to4_asks trivial) fun h hh => OnlyWrites.emit ?_
    rw [List.append_assoc, List.append_assoc]
    exact .ip4 _ hh.1 (hh.2 ▸ hq)

/-- Mapping the addresses of a quoted packet asks the mapper only. -/
theorem mapEm6to4_asks {P : PktOp → Prop} {p : Pkt6} (hmap : ∀ addr6 dynAlloc, P (.mapIp6ToIp4 addr6 dynAlloc)) :
    (mapEm6to4 p).Asks P fun _ => True := by
  refine ⟨hmap _ _, fun r => ?_⟩
  rcases r with _ | src
  · trivial
  · refine ⟨hmap _ _, fun r => ?_⟩
    rcases r with _ | dest <;> trivial

theorem mapEm6to4_writes {P : List Byte → Prop} {p : Pkt6} : OnlyWrites P (mapEm6to4 p) :=
  mapEm6to4_asks fun _ _ => trivial

private theorem xlate6to4IcmpError_writes {p : Pkt6} (hq : Q (proto6to4 p.dataProto)) :
    OnlyWrites (Wrote6to4 Q) (xlate6to4IcmpError g p) := by
  unfold xlate6to4IcmpError
  dsimp only
  split
  · trivial
  split
  · trivial
  · trivial
  refine OnlyWrites.ite (fun _ => .done _) fun _ => ?_
  split
  · trivial
  refine mapEm6to4_writes.bind fun r => ?_
  rcases r with _ | ⟨src, dest⟩
  · trivial
  refine OnlyWrites.bind (Asks.mono (xlateHeader6to4_asks trivial) (fun _ h => h) fun _ _ => trivial) fun h => ?_
  split
  · trivial
  · exact xlate6to4IcmpErrorEmit_writes hq

private theorem hostHandleIcmp6_writes {p : Pkt6} : OnlyWrites (Wrote6to4 Q) (hostHandleIcmp6 g p) :=
  OnlyWrites.ite (fun _ => hostSendIcmp6_writes) fun _ => .done _

/-- An accepted packet is translated: it has hops left, is as long as its header says and not for the translator, and
if it is no ICMPv6 message it fits the MTU and its payload is translated. -/
structure Translated6 (g : Gcfg) (p : Pkt6) : Prop where
  hops : p.ip6.hopLimit ≠ 0 ∧ p.ip6.hopLimit ≠ 1
  hlen : p.headerLen + p.data.length = p.ip6.payloadLength.toNat
  hdest : p.ip6.dest ≠ g.localAddr6
  hdata : p.dataProto ≠ 58 → 40 + p.data.length ≤ g.mtu ∧ PayloadTranslated6 g p

private theorem handlePlain6_writes
    (hq : ∀ p, parseIp6 d vhdr false = .ok p → Translated6 g p → Q (proto6to4 p.dataProto)) :
    OnlyWrites (Wrote6to4 Q) (handlePlain6 g d vhdr) := by
  unfold handlePlain6
  split
  · exact OnlyWrites.statsDrop _
  · exact hostSendIcmp6Error_writes.bind fun _ => OnlyWrites.statsDrop _
  next p hp =>
  have hq := hq p hp
  refine OnlyWrites.ite (fun _ => .statsDrop _) fun hvalid => OnlyWrites.ite (fun _ => .statsDrop _) fun _ =>
    OnlyWrites.ite (fun _ => ?_) fun hdest => OnlyWrites.ite (fun _ => hostSendIcmp6Error_writes) fun hone =>
    OnlyWrites.ite (fun _ => ?_) fun hicmp => ?_
  · exact OnlyWrites.ite (fun _ => hostHandleIcmp6_writes) fun _ => hostSendIcmp6Error_writes
  all_goals obtain ⟨hzero, hlen⟩ := not_or.1 hvalid
  · exact xlate6to4Data_writes fun hmtu hpayload =>
      hq ⟨⟨hzero, hone⟩, not_not.1 hlen, hdest, fun _ => ⟨hmtu, hpayload⟩⟩
  · exact xlate6to4IcmpError_writes
      (hq ⟨⟨hzero, hone⟩, not_not.1 hlen, hdest, fun hne => absurd (.inl hne) hicmp⟩)

private theorem dropRefused_writes {P : List Byte → Prop} {len : Nat} {prog : PktProg Bool} (h : OnlyWrites P prog) :
    OnlyWrites P (dropRefused len prog) :=
  h.bind fun r => by
    cases r
    · exact OnlyWrites.statsDrop _
    · trivial

/-- **What `handle_ip6` writes**: the IPv4 packets have the protocol of the parsed packet, or of the aggregate. -/
theorem handleIp6_writes {offload : Bool}
    (hplain : isGso vhdr = false → ∀ p, parseIp6 d vhdr false = .ok p → Translated6 g p → Q (proto6to4 p.dataProto))
    (hgso : isGso vhdr → ∀ proto, gsoValidIp6 d proto → proto = 6 ∨ proto = 17 → Q proto) :
    OnlyWrites (Wrote6to4 Q) (handleIp6 g offload d vhdr) := by
  refine OnlyWrites.ite (fun h => dropRefused_writes ?_) fun h => ?_
  · have hgso := hgso h
    exact OnlyWrites.ite (fun _ => gsoTranslateTcp6to4_writes fun h => hgso 6 h (.inl rfl)) fun _ =>
      OnlyWrites.ite (fun _ => gsoTranslateUdp6to4_writes fun h => hgso 17 h (.inr rfl)) fun _ => .done _
  · exact handlePlain6_writes (hplain (by simpa using h))

end To4

/-! ### To IPv6 -/

/-- What the direction to IPv6 writes: ICMP messages of its own with a type and code of `R`, and IPv6 packets, whole or
fragments, with an upper layer of `Q`. -/
inductive Wrote4to6 (R : Byte → Byte → Prop) (Q : Byte → Prop) : List Byte → Prop where
  | icmp {h : Ip4} {icmp : Icmp} (rest : List Byte) (hv : h.verIhl = 0x45) (hr : R icmp.type icmp.code) :
      Wrote4to6 R Q (h.toBytes ++ (icmp.toBytes ++ rest))
  | ip6 {h : Ip6} {tc : Byte} (rest : List Byte) (hv : h.verTcFl = verTc tc) (hq : Q h.nextHeader) :
      Wrote4to6 R Q (h.toBytes ++ rest)
  | frag {h : Ip6} {f : Ip6Frag} {tc : Byte} (rest : List Byte) (hv : h.verTcFl = verTc tc) (hn : h.nextHeader = 44)
      (hq : Q f.nextHeader) : Wrote4to6 R Q (h.toBytes ++ (f.toBytes ++ rest))

/-- The protocol an IPv4 packet has as upper layer in IPv6. -/
def proto4to6 (proto : Byte) : Byte := if proto = 1 then 58 else proto

section To6

variable {g : Gcfg} {d : List Byte} {R : Byte → Byte → Prop} {Q : Byte → Prop} {vhdr : Option VnetHdr}

private theorem hostSendIcmp4_writes {e : Endian} {tos : Byte} {src dest : In4} {icmp : Icmp}
    (hr : R icmp.type icmp.code) :
    OnlyWrites (Wrote4to6 R Q) (hostSendIcmp4 e tos src dest icmp d) := by
  refine OnlyWrites.emit ?_
  rw [List.append_assoc]
  exact .icmp _ rfl hr

theorem hostSendIcmp4Error_writes {type code : Byte} {word : BitVec 32} {p : Pkt4} (hr : R type code) :
    OnlyWrites (Wrote4to6 R Q) (hostSendIcmp4Error g type code word p) :=
  OnlyWrites.ite (fun _ => .done _) fun _ => hostSendIcmp4_writes hr

theorem gsoError4_writes {type code : Byte} {word : BitVec 32} {p : Pkt4} (hr : R type code) :
    OnlyWrites (Wrote4to6 R Q) (gsoError4 g type code word p) :=
  (hostSendIcmp4Error_writes hr).bind fun _ => .done _

/-- Every ICMP message but Fragmentation Needed is one of `R`. -/
def OtherErrors (R : Byte → Byte → Prop) : Prop := ∀ type code, (type, code) ≠ (3, 4) → R type code

/-- Mapping the addresses of an aggregate asks the mapper, and sends at most an ICMP error. -/
theorem gsoMap4to6WithIcmp_asks {P : PktOp → Prop} {p : Pkt4} (hmap : ∀ addr4, P (.mapIp4ToIp6 addr4))
    (herror : ∀ code ∈ ([1, 2, 10] : List Byte), (hostSendIcmp4Error g 3 code 0 p).Asks P fun _ => True) :
    (gsoMap4to6WithIcmp g p).Asks P fun _ => True := by
  have hsent : ∀ code ∈ ([1, 2, 10] : List Byte), ((hostSendIcmp4Error g 3 code 0 p >>= fun _ =>
      .done (.error true)) : PktProg (Except Bool (In6 × In6))).Asks P fun _ => True :=
    fun code hcode => (herror code hcode).bind fun _ _ => trivial
  refine Asks.ite (fun _ => hsent 2 (by decide)) fun _ => ⟨hmap _, fun r => ?_⟩
  rcases r with (_ | _ | _) | dst6
  · exact hsent 1 (by decide)
  · trivial
  · trivial
  refine ⟨hmap _, fun r => ?_⟩
  rcases r with (_ | _ | _) | src6
  · exact hsent 10 (by decide)
  all_goals trivial

theorem gsoMap4to6WithIcmp_writes {p : Pkt4} (hr : OtherErrors R) :
    OnlyWrites (Wrote4to6 R Q) (gsoMap4to6WithIcmp g p) := by
  refine gsoMap4to6WithIcmp_asks (fun _ => trivial) fun code hcode => hostSendIcmp4Error_writes (hr 3 code fun h => ?_)
  cases h
  exact absurd hcode (by decide)

theorem buildTcp4to6_writes {e : Endian} {p : Pkt4} {tcp : TcpHdr} {l4Len : Nat} {src6 dst6 : In6} (hq : Q 6)
    {offset : Nat} {isLast : Bool} {nextId : BitVec 16} {seg : List Byte} {r : List Byte × BitVec 16}
    (hr : buildTcp4to6 e p tcp l4Len src6 dst6 offset isLast nextId seg = some r) : Wrote4to6 R Q r.1 := by
  unfold buildTcp4to6 at hr
  dsimp only at hr
  split at hr
  · cases hr
  · cases hr
    dsimp only
    rw [List.append_assoc]
    exact .ip6 _ rfl hq

theorem buildUdp4to6_writes {e : Endian} {p : Pkt4} {udp : UdpHdr} {src6 dst6 : In6} (hq : Q 17) {offset : Nat}
    {isLast : Bool} {nextId : BitVec 16} {seg : List Byte} {r : List Byte × BitVec 16}
    (hr : buildUdp4to6 e p udp src6 dst6 offset isLast nextId seg = some r) : Wrote4to6 R Q r.1 := by
  unfold buildUdp4to6 at hr
  dsimp only at hr
  split at hr
  · cases hr
  · cases hr
    dsimp only
    rw [List.append_assoc]
    exact .ip6 _ rfl hq

theorem gsoSize_ne_zero {len : Nat} {v : VnetHdr} (h : ¬gsoValidateHeader len v ≤ 0) : v.gsoSize ≠ 0 := by
  intro hzero
  refine h ?_
  unfold gsoValidateHeader
  split
  · decide
  split
  · decide
  split
  · decide
  rw [if_pos (.inl hzero)]
  decide

theorem effectiveGsoSize_eq {len : Nat} {v : VnetHdr} (h : ¬gsoValidateHeader len v ≤ 0) (n : Nat) :
    effectiveGsoSize v n = v.gsoSize.toNat :=
  if_neg (gsoSize_ne_zero h)

/-- Fragmentation Needed is one of `R` if the largest segment of the aggregate is too big behind `l3Len` bytes, and the
header passes a test made before. -/
def BigAllowed (g : Gcfg) (d : List Byte) (v : VnetHdr) (proto : Byte) (before : Ip4 → Prop) (l3Len l4Len : Nat → Nat)
    (R : Byte → Byte → Prop) : Prop :=
  ∀ ihl, gsoValidateIpv4Header g.endian d proto = some ihl → before (gsoPkt4 d v ihl proto).ip4 →
    gsoTooBig4 g (gsoPkt4 d v ihl proto) (l3Len ihl) (l4Len ihl) v.gsoSize.toNat → R 3 4

private theorem gsoSoftwareSegmentAndSendUdp4to6_writes {v : VnetHdr} (hr : OtherErrors R) (hq : Q 17)
    (hbig : BigAllowed g d v 17 (fun h => ¬h.ttl ≤ 1) id (fun _ => 8) R) :
    OnlyWrites (Wrote4to6 R Q) (gsoSoftwareSegmentAndSendUdp4to6 g d (some v)) := by
  unfold gsoSoftwareSegmentAndSendUdp4to6
  refine OnlyWrites.ite (fun _ => .done _) fun hvalid => ?_
  have hsize := effectiveGsoSize_eq (not_or.1 hvalid).2
  split
  · trivial
  next ihl hihl =>
  simp only [hsize]
  refine OnlyWrites.ite (fun _ => .done _) fun _ =>
    OnlyWrites.ite (fun _ => gsoError4_writes (hr _ _ (by decide))) fun httl =>
    OnlyWrites.ite (fun _ => .done _) fun _ =>
    OnlyWrites.ite (fun h => gsoError4_writes (hbig ihl hihl httl h)) fun _ => ?_
  refine (gsoMap4to6WithIcmp_writes hr).bind fun r => ?_
  rcases r with handled | ⟨src6, dst6⟩
  · trivial
  · exact segmentLoop_writes (fun _ _ _ _ _ h => buildUdp4to6_writes hq h) _ _ _ _

private theorem gsoTranslateTcp4to6_writes {v : VnetHdr} (hr : OtherErrors R) (hq : Q 6)
    (hbig : BigAllowed g d v 6 (fun _ => True) (fun _ => 20) (fun ihl => tcpHdrLen (d.drop ihl)) R) :
    OnlyWrites (Wrote4to6 R Q) (gsoTranslateTcp4to6 g d (some v)) := by
  unfold gsoTranslateTcp4to6
  refine OnlyWrites.ite (fun _ => .done _) fun _ => OnlyWrites.ite (fun _ => .done _) fun _ =>
    OnlyWrites.ite (fun _ => .done _) fun _ => ?_
  split
  · trivial
  next ihl hihl =>
  refine OnlyWrites.ite (fun _ => .done _) fun _ => OnlyWrites.ite (fun _ => .done _) fun _ =>
    OnlyWrites.ite (fun h => gsoError4_writes (hbig ihl hihl trivial h)) fun _ =>
    OnlyWrites.ite (fun _ => gsoError4_writes (hr _ _ (by decide))) fun _ => ?_
  refine (gsoMap4to6WithIcmp_writes hr).bind fun r => ?_
  rcases r with handled | ⟨src6, dst6⟩
  · trivial
  · exact OnlyWrites.bind (OnlyWrites.emit (.ip6 _ rfl hq)) fun _ => .done _

private theorem gsoTranslateUdp4to6_writes {v : VnetHdr} (hr : OtherErrors R) (hq : Q 17)
    (hbig : BigAllowed g d v 17 (fun h => ¬h.ttl ≤ 1) (fun _ => 20) (fun _ => 8) R)
    (hsoft : ∀ ihl, gsoValidateIpv4Header g.endian d 17 = some ihl → g.tunHasUso = false ∨ ihl ≠ 20 →
      BigAllowed g d v 17 (fun h => ¬h.ttl ≤ 1) id (fun _ => 8) R) :
    OnlyWrites (Wrote4to6 R Q) (gsoTranslateUdp4to6 g d (some v)) := by
  unfold gsoTranslateUdp4to6
  refine OnlyWrites.ite (fun _ => .done _) fun _ => OnlyWrites.ite (fun _ => .done _) fun _ =>
    OnlyWrites.ite (fun _ => .done _) fun _ => ?_
  split
  · trivial
  next ihl hihl =>
  refine OnlyWrites.ite (fun _ => .done _) fun _ =>
    OnlyWrites.ite (fun _ => gsoError4_writes (hr _ _ (by decide))) fun httl =>
    OnlyWrites.ite (fun _ => .done _) fun _ => OnlyWrites.ite (fun _ => .done _) fun _ =>
    OnlyWrites.ite (fun h => gsoError4_writes (hbig ihl hihl httl h)) fun _ =>
    OnlyWrites.ite (fun h => gsoSoftwareSegmentAndSendUdp4to6_writes hr hq (hsoft ihl hihl (by simpa using h)))
      fun _ => ?_
  refine (gsoMap4to6WithIcmp_writes hr).bind fun r => ?_
  rcases r with handled | ⟨src6, dst6⟩
  · trivial
  · exact OnlyWrites.bind (OnlyWrites.emit (.ip6 _ rfl hq)) fun _ => .done _

/-- Each fragment is the header, the fragment header and a part of the data. -/
private theorem fragmentLoop_writes {ip6 : Ip6} {frag : Ip6Frag} {mf : Bool} {tc : Byte} (hv : ip6.verTcFl = verTc tc)
    (hn : ip6.nextHeader = 44) (hq : Q frag.nextHeader) (n : Nat) (off : BitVec 16) (fragSize : Nat)
    (data : List Byte) : OnlyWrites (Wrote4to6 R Q) (fragmentLoop ip6 frag mf n off fragSize data) := by
  induction n generalizing off fragSize data with
  | zero => trivial
  | succ n ih =>
    refine OnlyWrites.ite (fun _ => .done _) fun _ => ⟨?_, fun ret => ?_⟩
    · show Wrote4to6 R Q _
      rw [List.append_assoc]
      exact .frag _ hv hn hq
    · exact OnlyWrites.ite (fun _ => .done _) fun _ => ih _ _ _

theorem xlate4to6Emit_writes {p : Pkt4} {src dest : In6} {fragSize : Nat} {noFragHdr : Bool}
    (hq : Q (proto4to6 p.dataProto)) : OnlyWrites (Wrote4to6 R Q) (xlate4to6Emit g p src dest fragSize noFragHdr) := by
  unfold xlate4to6Emit
  dsimp only
  split
  · exact OnlyWrites.statsDrop _
  · exact OnlyWrites.ite (fun _ => OnlyWrites.emit (.ip6 _ rfl hq)) fun _ => fragmentLoop_writes rfl rfl hq _ _ _ _

/-- An unfragmented packet with DF set does not fit the MTU after translation. -/
def tooBig4 (g : Gcfg) (p : Pkt4) : Prop :=
  p.ip4.flagsOffset &&& (ip4FMask ||| ip4FMf) = 0 ∧ p.ip4.flagsOffset &&& ip4FDf ≠ 0 ∧ g.mtu < 40 + p.data.length

theorem xlate4to6Data_writes {p : Pkt4} (hr : OtherErrors R) (hbig : tooBig4 g p → R 3 4)
    (hq : Q (proto4to6 p.dataProto)) : OnlyWrites (Wrote4to6 R Q) (xlate4to6Data g p) := by
  refine ⟨trivial, fun r => ?_⟩
  rcases r with (_ | _ | _) | dest
  · exact (OnlyWrites.statsDrop _).bind fun _ => hostSendIcmp4Error_writes (hr _ _ (by decide))
  · exact OnlyWrites.statsDrop _
  · exact OnlyWrites.statsDrop _
  refine ⟨trivial, fun r => ?_⟩
  rcases r with (_ | _ | _) | src
  · exact (OnlyWrites.statsDrop _).bind fun _ => hostSendIcmp4Error_writes (hr _ _ (by decide))
  · exact OnlyWrites.statsDrop _
  · exact OnlyWrites.statsDrop _
  refine OnlyWrites.ite (fun hoff => ?_) fun _ => ?_
  · refine OnlyWrites.ite (fun hdf => ?_) fun _ => xlate4to6Emit_writes hq
    refine OnlyWrites.ite (fun hlen => ?_) fun _ => xlate4to6Emit_writes hq
    exact hostSendIcmp4Error_writes (hbig ⟨hoff, hdf, hlen⟩)
  · exact xlate4to6Emit_writes hq

private theorem xlate4to6IcmpErrorEmit_writes {p : Pkt4} {icmp : Icmp} {emHeader emData : List Byte}
    (hq : Q (proto4to6 p.dataProto)) :
    OnlyWrites (Wrote4to6 R Q) (xlate4to6IcmpErrorEmit g p icmp emHeader emData) := by
  refine ⟨trivial, fun r => ⟨trivial, fun r => ?_⟩⟩
  rcases r with _ | dest
  · trivial
  · refine OnlyWrites.emit ?_
    rw [List.append_assoc, List.append_assoc]
    exact .ip6 _ rfl hq

theorem mapEm4to6_writes {P : List Byte → Prop} {p : Pkt4} : OnlyWrites P (mapEm4to6 p) := by
  refine ⟨trivial, fun r => ?_⟩
  rcases r with _ | src
  · trivial
  · refine ⟨trivial, fun r => ?_⟩
    rcases r with _ | dest <;> trivial

private theorem xlate4to6IcmpError_writes {p : Pkt4} (hq : Q (proto4to6 p.dataProto)) :
    OnlyWrites (Wrote4to6 R Q) (xlate4to6IcmpError g p) := by
  unfold xlate4to6IcmpError
  dsimp only
  split
  · trivial
  split
  · trivial
  refine OnlyWrites.ite (fun _ => .done _) fun _ => ?_
  refine mapEm4to6_writes.bind fun r => ?_
  rcases r with _ | ⟨src, dest⟩
  · trivial
  dsimp only
  split
  · trivial
  split
  · trivial
  · exact xlate4to6IcmpErrorEmit_writes hq

private theorem handlePlain4_writes (hr : OtherErrors R)
    (hp : ∀ p, parseIp4 d vhdr false = .ok p → Q (proto4to6 p.dataProto) ∧ (tooBig4 g p → R 3 4)) :
    OnlyWrites (Wrote4to6 R Q) (handlePlain4 g d vhdr) := by
  unfold handlePlain4
  split
  · exact OnlyWrites.statsDrop _
  next p hparse =>
  obtain ⟨hq, hbig⟩ := hp p hparse
  refine OnlyWrites.ite (fun _ => .statsDrop _) fun _ => OnlyWrites.ite (fun _ => .statsDrop _) fun _ =>
    OnlyWrites.ite (fun _ => OnlyWrites.ite (fun _ => ?_) fun _ => ?_) fun _ => OnlyWrites.ite (fun _ => ?_) fun _ =>
    OnlyWrites.ite (fun _ => xlate4to6Data_writes hr hbig hq) fun _ => xlate4to6IcmpError_writes hq
  · exact OnlyWrites.ite (fun _ => hostSendIcmp4_writes (hr _ _ (by simp))) fun _ => .done _
  all_goals exact hostSendIcmp4Error_writes (hr _ _ (by decide))

/-- **What `handle_ip4` writes**: the IPv6 packets have the upper layer of the parsed packet, or of the aggregate. -/
theorem handleIp4_writes {offload : Bool}
    (hplain : isGso vhdr = false → ∀ p, parseIp4 d vhdr false = .ok p → Q (proto4to6 p.dataProto)) (hgso : Q 6 ∧ Q 17) :
    OnlyWrites (Wrote4to6 (fun _ _ => True) Q) (handleIp4 g offload d vhdr) := by
  have hbig : ∀ v proto before l3Len l4Len, BigAllowed g d v proto before l3Len l4Len fun _ _ => True :=
    fun _ _ _ _ _ _ _ _ _ => trivial
  have hr : OtherErrors fun _ _ => True := fun _ _ _ => trivial
  refine OnlyWrites.ite (fun h => dropRefused_writes ?_) fun h => ?_
  · cases vhdr with
    | none => cases h
    | some v =>
      exact OnlyWrites.ite (fun _ => gsoTranslateTcp4to6_writes hr hgso.1 (hbig _ _ _ _ _)) fun _ =>
        OnlyWrites.ite (fun _ => gsoTranslateUdp4to6_writes hr hgso.2 (hbig _ _ _ _ _) fun _ _ _ => hbig _ _ _ _ _)
        fun _ => .done _
  · exact handlePlain4_writes hr fun p hp => ⟨hplain (by simpa using h) p hp, fun _ => trivial⟩

end To6

/-! ### A translator at work -/

/-- A translator with an MTU of 1500 bytes. -/
def sampleGcfg : Gcfg := { configInit .little 0 with
  mtu := 1500
  ipv6OfflinkMtu := 1280
  localAddr4 := 0xc0a8ff01
  localAddr6 := 0x20010db80001000000000000c0a8ff01 }

/-- Every address is the last word of its counterpart, and every write succeeds. -/
def sampleAns : (op : PktOp) → op.Ans
  | .mapIp4ToIp6 addr4 => .ok (0x0064ff9b0000000000000000#96 ++ addr4)
  | .mapIp6ToIp4 addr6 _ => .ok (addr6.setWidth 32)
  | .reserveIp4Ident _ => 0xb00b
  | .write _ packet => packet.length
  | .statsDrop _ => ()

end Tayga
