import Tayga.Parsing
import Tayga.Written

/-!
# Protocol numbers

The IPv4 parser refuses the numbers of IPv6 extension headers and of ICMPv6, so what the direction to IPv6 writes never
has one of them, nor ICMPv4, as its upper layer.  The IPv6 parser goes over no extension header behind a fragment
header, and so the direction to IPv4 hands such a header on as the protocol of the packet (`protocols_translated`).
-/

namespace Tayga

open Program

variable {g : Gcfg} {offload : Bool} {d : List Byte} {vhdr : Option VnetHdr}

/-- The protocols `parse_ip4` refuses. -/
def refusedProtocols : List Byte := [0, 43, 44, 58, 60]

/-- An IPv4 packet has a protocol `parse_ip4` accepts. -/
def ProtocolAccepted (packet : List Byte) : Prop := version packet = 4 → getU8 packet 9 ∉ refusedProtocols

/-- The upper layer of an IPv6 packet the translator writes, behind a fragment header if there is one. -/
def upperLayer (packet : List Byte) : Byte := if getU8 packet 6 = 44 then getU8 packet 40 else getU8 packet 6

/-- An IPv6 packet has neither ICMPv4 nor an extension header as its upper layer. -/
def UpperLayerAccepted (packet : List Byte) : Prop :=
  version packet = 6 → upperLayer packet ∉ ([1, 0, 43, 44, 60] : List Byte)

/-! ### To IPv6 -/

private theorem parseIp4_proto {em : Bool} {p : Pkt4} (h : parseIp4 d vhdr em = .ok p) :
    p.dataProto ∉ refusedProtocols := by
  unfold parseIp4 at h
  dsimp only at h
  split at h
  · cases h
  split at h
  · cases h
  split at h
  · next hicmp =>
    split at h
    · cases h
    split at h
    · cases h
    · cases h
      dsimp only at hicmp ⊢
      rw [hicmp]
      decide
  split at h
  · cases h
  next hrefused =>
  split at h
  · cases h
  split at h
  · cases h
  · cases h
    simpa [refusedProtocols] using hrefused

/-- **Upper layers written in IPv6.** -/
theorem handleIp4_upperLayer : OnlyWrites UpperLayerAccepted (handleIp4 g offload d vhdr) := by
  have hwrites : OnlyWrites (Wrote4to6 (fun _ _ => True) (· ∉ ([1, 0, 43, 44, 60] : List Byte)))
      (handleIp4 g offload d vhdr) := by
    refine handleIp4_writes (fun _ p hp => ?_) ⟨by decide, by decide⟩
    have hproto := parseIp4_proto hp
    unfold proto4to6
    split
    · decide
    · next hne =>
      simp only [refusedProtocols, List.mem_cons, List.not_mem_nil, or_false, not_or] at hproto ⊢
      exact ⟨hne, hproto.1, hproto.2.1, hproto.2.2.1, hproto.2.2.2.2⟩
  refine hwrites.mono fun packet hpacket hversion => ?_
  cases hpacket with
  | icmp rest hv _ =>
    rw [Ip4.version_toBytes hv] at hversion
    exact absurd hversion (by decide)
  | @ip6 h tc rest hv hq =>
    have hne : h.nextHeader ≠ 44 := by
      intro heq
      exact hq (by simp [heq])
    rw [upperLayer, (h.getU8_toBytes rest).2.1, if_neg hne]
    exact hq
  | @frag h f tc rest hv hn hq =>
    rw [upperLayer, (h.getU8_toBytes _).2.1, if_pos hn, (h.getU8_toBytes _).2.2]
    exact hq

/-! ### To IPv4 -/

theorem extHeaders_stop {proto proto' : Byte} {rest : List Byte} {hs : List ExtHdr}
    (h : ExtHeaders proto d hs proto' rest) : ¬isExt proto' := by
  induction h with
  | nil hstop => exact hstop
  | cons _ _ _ ih => exact ih

/-- A packet without a fragment header has its upper layer behind the extension headers. -/
private theorem WellFormed6.not_ext {em : Bool} {hs : List ExtHdr} {proto : Byte} {data : List Byte}
    (h : WellFormed6 em d hs none proto data) : proto ∉ ([0, 43, 44, 60] : List Byte) := by
  obtain ⟨proto', rest, hchain, hbehind⟩ := h.hchain
  have hstop := extHeaders_stop hchain
  cases hbehind with
  | whole hne =>
    simp only [isExt, Bool.or_eq_true, decide_eq_true_eq, not_or] at hstop
    simp only [List.mem_cons, List.not_mem_nil, or_false, not_or]
    exact ⟨hstop.1.1, hstop.1.2, hne, hstop.2⟩

/-- The payload of a protocol the translator does not know stays as it is, unless its checksum is left to the device. -/
private theorem xlatePayload_other {x : PayloadCtx} {proto : Byte} {em : Bool} {p : Payload}
    (hicmp : proto ≠ x.icmpProto)
    (hproto : proto ∉ ([6, 17, 33, 136] : List Byte)) (hfrag : x.noninitial → x.fragmented) :
    xlatePayload g x proto em p = if needsCsum p.2 then none else some p := by
  simp only [List.mem_cons, List.not_mem_nil, or_false, not_or] at hproto
  obtain ⟨h6, h17, h33, h136⟩ := hproto
  unfold xlatePayload
  rw [if_neg hicmp, if_neg h17, if_neg h6, if_neg (not_or.2 ⟨h33, h136⟩)]
  by_cases hneeds : needsCsum p.2
  · by_cases hnon : x.noninitial
    · rw [if_pos ⟨hfrag hnon, hneeds⟩, if_pos hneeds]
    · rw [if_pos hneeds, if_neg hnon]
      split <;> rfl
  · rw [if_neg fun h => hneeds h.2, if_neg hneeds]
    split <;> rfl

theorem payloadCtx6to4_fragmented {p : Pkt6} {ip4 : Ip4} (h : (payloadCtx6to4 g p ip4).noninitial) :
    (payloadCtx6to4 g p ip4).fragmented := by
  obtain ⟨f, hf, hmask⟩ := (Option.any_eq_true _ _).1 h
  refine (Option.any_eq_true _ _).2 ⟨f, hf, decide_eq_true fun hzero => ?_⟩
  exact of_decide_eq_true hmask (and_eq_zero_of_and_or hzero)

/-- The payload behind a header the translator does not go over. -/
private theorem xlatePayload6to4_ext {p : Pkt6} {ip4 : Ip4} {em : Bool}
    (h : p.dataProto ∈ ([0, 43, 44, 60] : List Byte)) :
    xlatePayload6to4 g p ip4 em = if needsCsum p.vhdr then none else some p := by
  have hall : ∀ proto ∈ ([0, 43, 44, 60] : List Byte), proto ≠ 58 ∧ proto ∉ ([6, 17, 33, 136] : List Byte) := by decide
  obtain ⟨hicmp, hknown⟩ := hall _ h
  unfold xlatePayload6to4
  rw [xlatePayload_other hicmp hknown payloadCtx6to4_fragmented]
  split <;> rfl

/-- Nothing keeps the packet from being forwarded to IPv4, and the Next Header of its fragment header is an extension
header. -/
def ExtBehindFragment (g : Gcfg) (d : List Byte) (vhdr : Option VnetHdr) : Prop :=
  isGso vhdr = false ∧ needsCsum vhdr = false ∧
  ((Ip6.ofBytes d).hopLimit ≠ 0 ∧ (Ip6.ofBytes d).hopLimit ≠ 1) ∧
  (ip6Data d).length = (Ip6.ofBytes d).payloadLength.toNat ∧ (Ip6.ofBytes d).dest ≠ g.localAddr6 ∧
  ∃ hs f proto data, WellFormed6 false d hs (some f) proto data ∧ lastSegLeft hs = 0 ∧
    proto ∈ ([0, 43, 44, 60] : List Byte) ∧ 40 + data.length ≤ g.mtu

private theorem ext_of_refused {proto : Byte} (h : proto6to4 proto ∈ refusedProtocols) :
    proto ≠ 58 ∧ proto ∈ ([0, 43, 44, 60] : List Byte) := by
  unfold proto6to4 at h
  split at h
  · exact absurd h (by decide)
  · next hne =>
    simp only [refusedProtocols, List.mem_cons, List.not_mem_nil, or_false] at h ⊢
    exact ⟨hne, by tauto⟩

/-- The protocol a forwarded packet gets, if it is one that `parse_ip4` refuses. -/
private theorem extBehindFragment_of_refused (hplain : isGso vhdr = false) {p : Pkt6}
    (hp : parseIp6 d vhdr false = .ok p)
    (htranslated : Translated6 g p) (hrefused : proto6to4 p.dataProto ∈ refusedProtocols) :
    ExtBehindFragment g d vhdr := by
  obtain ⟨hne, hext⟩ := ext_of_refused hrefused
  obtain ⟨hs, hwf, hlast, hip6, hlen, hvhdr⟩ := parseIp6_eq_ok hp
  obtain ⟨hmtu, ip4, q, hpayload⟩ := htranslated.hdata hne
  have hhops := htranslated.hops
  have hdest := htranslated.hdest
  have hfull := htranslated.hlen
  rw [hip6] at hhops hdest hfull
  have hneeds : needsCsum vhdr = false := by
    rw [xlatePayload6to4_ext hext, hvhdr] at hpayload
    by_contra htrue
    rw [if_pos (by simpa using htrue)] at hpayload
    cases hpayload
  refine ⟨hplain, hneeds, hhops, hlen ▸ hfull, hdest, ?_⟩
  cases hfrag : p.frag with
  | none =>
    rw [hfrag] at hwf
    exact absurd hext hwf.not_ext
  | some f =>
    rw [hfrag] at hwf
    exact ⟨hs, f, _, _, hwf, hlast, hext, hmtu⟩

/-- The packet `handle_ip6` writes for such a packet, whatever the addresses are mapped to. -/
private theorem not_accepted_of_extBehindFragment (h : ExtBehindFragment g d vhdr) :
    ¬OnlyWrites ProtocolAccepted (handleIp6 g offload d vhdr) := by
  obtain ⟨hplain, hneeds, ⟨hzero, hone⟩, hlen, hdest, hs, f, proto, data, hwf, hlast, hext, hmtu⟩ := h
  obtain ⟨p, ptr, -, hip6, -, hplen, hfrag, rfl, rfl, hvhdr, hparse⟩ := parseIp6_of_wellFormed vhdr hwf
  rw [if_pos hlast] at hparse
  have hne : p.dataProto ≠ 58 := by
    intro heq
    rw [heq] at hext
    exact absurd hext (by decide)
  have hdata : handleIp6 g offload d vhdr = xlate6to4Data g p := by
    unfold handleIp6 handlePlain6
    rw [hplain, hparse]
    dsimp only
    rw [hip6, hplen, hlen, if_neg (by decide), if_neg (not_or.2 ⟨hzero, not_not.2 rfl⟩), if_neg (fun h => hne h.1),
      if_neg hdest, if_neg hone, if_pos (.inl hne)]
  rw [hdata]
  intro h
  -- the mapper may answer with any addresses
  have hemit : OnlyWrites ProtocolAccepted (xlate6to4Emit g p 0 0) := by
    have h := (h.2 (.ok 0)).2 (.ok 0)
    dsimp only at h
    rwa [if_neg (Nat.not_lt.2 hmtu)] at h
  unfold xlate6to4Emit xlateHeader6to4 xlateIdent6to4 at hemit
  rw [hfrag] at hemit
  simp only [done_bind, pure_eq] at hemit
  rw [xlatePayload6to4_ext hext, hvhdr, if_neg (by rw [hneeds]; decide)] at hemit
  have haccepted : ProtocolAccepted _ := hemit.1
  have hproto := haccepted (Ip4.version_toBytes rfl _)
  rw [(Ip4.getU8_toBytes _ _).2] at hproto
  have hsame : proto6to4 p.dataProto = p.dataProto := if_neg hne
  refine hproto (?_ : proto6to4 p.dataProto ∈ refusedProtocols)
  have hall : ∀ proto ∈ ([0, 43, 44, 60] : List Byte), proto ∈ refusedProtocols := by decide
  rw [hsame]
  exact hall _ hext

/-- **Protocol numbers**: the IPv4 packets written for an IPv6 packet have a protocol that the IPv4 parser accepts,
exactly unless the packet is forwarded with an extension header behind its fragment header; the IPv6 packets written
for an IPv4 packet never have ICMPv4 or an extension header as their upper layer. -/
theorem protocols_translated (g : Gcfg) (offload : Bool) (d : List Byte) (vhdr : Option VnetHdr) :
    (OnlyWrites ProtocolAccepted (handleIp6 g offload d vhdr) ↔ ¬ExtBehindFragment g d vhdr) ∧
    OnlyWrites UpperLayerAccepted (handleIp4 g offload d vhdr) := by
  refine ⟨⟨fun h hext => not_accepted_of_extBehindFragment hext h, fun hnot => ?_⟩, handleIp4_upperLayer⟩
  have hwrites : OnlyWrites (Wrote6to4 (· ∉ refusedProtocols)) (handleIp6 g offload d vhdr) := by
    refine handleIp6_writes (fun hplain p hp htranslated hrefused => ?_) fun _ proto _ hproto => ?_
    · exact hnot (extBehindFragment_of_refused hplain hp htranslated hrefused)
    · rcases hproto with rfl | rfl <;> decide
  refine hwrites.mono fun packet hpacket hversion => ?_
  cases hpacket with
  | ip6 rest hv =>
    rw [Ip6.version_toBytes hv] at hversion
    exact absurd hversion (by decide)
  | @ip4 h rest hv hq =>
    rw [(h.getU8_toBytes rest).2]
    exact hq

/-- A first fragment with a destination options header behind its fragment header. -/
def optionsPacket : List Byte :=
  [0x60, 0, 0, 0, 0, 24, 44, 64,
    0x20, 0x01, 0x0d, 0xb8, 0, 0, 0, 0, 0, 0, 0, 0, 0xc0, 0, 2, 5,
    0x00, 0x64, 0xff, 0x9b, 0, 0, 0, 0, 0, 0, 0, 0, 0xc6, 0x33, 0x64, 7,
    60, 0, 0, 1, 0, 0, 0, 9,
    17, 0, 1, 4, 0, 0, 0, 0,
    0x30, 0x39, 0x00, 0x35, 0x00, 0x08, 0x12, 0x34]

/-- It is written to IPv4 with protocol 60, which the IPv4 parser refuses. -/
theorem not_protocolAccepted_options :
    ∃ packet ∈ written sampleAns (handleIp6 sampleGcfg false optionsPacket none),
      version packet = 4 ∧ getU8 packet 9 = 60 ∧ 60 ∈ refusedProtocols ∧
      ∀ p, parseIp4 packet none false ≠ .ok p := by
  have hwritten : ∃ packet ∈ written sampleAns (handleIp6 sampleGcfg false optionsPacket none),
      version packet = 4 ∧ getU8 packet 9 = 60 ∧ 60 ∈ refusedProtocols ∧
      (parseIp4 packet none false).toOption = none := by decide +kernel
  obtain ⟨packet, hmem, hversion, hproto, hrefused, hparse⟩ := hwritten
  refine ⟨packet, hmem, hversion, hproto, hrefused, fun p hp => ?_⟩
  rw [hp] at hparse
  cases hparse

end Tayga
