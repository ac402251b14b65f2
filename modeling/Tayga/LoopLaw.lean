import Tayga.IcmpLaw
import Tayga.UpperLayer
import Tayga.Verdicts

/-!
# No error about an error

No ICMP error is sent about an ICMP message other than an echo request, and no ICMP error about an ICMP error is
translated (`NoLoop4`, `NoLoop6`), as far as the parser sees the message.  It does not see one behind an Authentication
header, nor one with another header between it and a fragment header (`HiddenIcmp`).
-/

namespace Tayga

open Program

variable {g : Gcfg} {d : List Byte} {vhdr : Option VnetHdr} {ans : (op : PktOp) → op.Ans}

/-! ### The law -/

/-- A packet that is written is an ICMP error. -/
def IsIcmpError4 (packet : List Byte) : Prop :=
  version packet = 4 ∧ getU8 packet 9 = 1 ∧ getU8 packet 20 ≠ 8 ∧ getU8 packet 20 ≠ 0

/-- A packet that is written is an ICMPv6 error. -/
def IsIcmpError6 (packet : List Byte) : Prop :=
  version packet = 6 ∧ getU8 packet 6 = 58 ∧ (getU8 packet 40).toNat < 128

/-- The IPv4 packet is or, if it is a fragment, begins with a message of the kind `P`. -/
def Carries4 (mask : BitVec 16) (P : Byte → Byte → Prop) (d : List Byte) : Prop :=
  (Ip4.ofBytes d).flagsOffset &&& mask = 0 ∧ ip4Data d ≠ [] ∧ P (Ip4.ofBytes d).proto (getU8 (ip4Data d) 0)

/-- The packet an ICMP error quotes. -/
def quoted4 (p : Pkt4) : Option (List Byte) := emData (emLen4 p.icmp) (p.data.drop 8)

/-- The packet an ICMPv6 error quotes. -/
def quoted6 (p : Pkt6) : Option (List Byte) := emData (emLen6 p.icmp) (p.data.drop 8)

/-- Of a packet written for the IPv4 packet `d`: an ICMP error is about `d`, an ICMPv6 error about what `d` quotes. -/
structure NoLoop4 (d : List Byte) (vhdr : Option VnetHdr) (packet : List Byte) : Prop where
  hown : IsIcmpError4 packet → ¬Carries4 ip4FMask OtherMessage d
  htranslated : IsIcmpError6 packet → ∀ p q, parseIp4 d vhdr false = .ok p → quoted4 p = some q →
    ¬Carries4 (ip4FMask ||| ip4FMf) ErrorMessage q

/-- Of a packet written for the IPv6 packet `d`: an ICMPv6 error is about `d`, an ICMP error about what `d` quotes. -/
structure NoLoop6 (d : List Byte) (vhdr : Option VnetHdr) (packet : List Byte) : Prop where
  hown : IsIcmpError6 packet → ¬Carries6 ip6FMask OtherMessage d
  htranslated : IsIcmpError4 packet → ∀ p q, parseIp6 d vhdr false = .ok p → quoted6 p = some q →
    ¬Carries6 (ip6FMask ||| ip6FMf) ErrorMessage q

/-- An error is due, or one is translated, and the message it is about is hidden from the parser. -/
inductive HiddenIcmp (g : Gcfg) (ans : (op : PktOp) → op.Ans) (d : List Byte) (vhdr : Option VnetHdr) : Prop where
  | pending {ptr : Nat} {p : Pkt6} (hparse : parseIp6 d vhdr false = .routing ptr p)
      (hhidden : Hidden ip6FMask OtherMessage p)
  | refused {p : Pkt6} (hparse : parseIp6 d vhdr false = .ok p) (hvalid : Valid6 g p) (hrefused : Refused6 g ans p)
      (hhidden : Hidden ip6FMask OtherMessage p)
  | quoted {p em : Pkt6} (hparse : parseIp6 d vhdr false = .ok p) (htranslated : TranslatedError6 g ans p)
      (hem : quote6 p = some em) (hhidden : Hidden (ip6FMask ||| ip6FMf) ErrorMessage em)

/-! ### IPv4 packets -/

private theorem parsed4_carries {em : Bool} {mask : BitVec 16} {P : Byte → Byte → Prop} {p : Pkt4}
    (hP : ∀ proto type, P proto type → OtherMessage proto type) (hp : Parsed4 d vhdr em p) (hother : ¬IcmpOther4 p) :
    ¬Carries4 mask P d := by
  rintro ⟨-, -, hmessage⟩
  have hproto : p.dataProto = (Ip4.ofBytes d).proto := by rw [hp.hproto, hp.hip4]
  rw [← hp.hdata, ← hproto] at hmessage
  rcases hP _ _ hmessage with hicmp | hicmp
  · exact hother hicmp
  · exact hp.hicmp6 hicmp.1

private theorem quote4_carries {mask : BitVec 16} {p em : Pkt4} {q : List Byte} (hem : quote4 p = some em)
    (hq : quoted4 p = some q) : ¬Carries4 mask ErrorMessage q := by
  obtain ⟨⟨q', hquoted, hparse⟩, hother⟩ := quote4_eq_some hem
  cases hquoted.symm.trans hq
  exact parsed4_carries (fun _ _ => ErrorMessage.other) (parsed4_of_parseIp4 hparse) hother

private theorem NoLoop4.of_ip6 {packet : List Byte} (hv : version packet = 6) (h : ¬IsIcmpError6 packet) :
    NoLoop4 d vhdr packet :=
  ⟨fun h4 => absurd (hv.symm.trans h4.1) (by decide), fun h6 => absurd h6 h⟩

private theorem noLoop4_of_output {p : Pkt4} {out : Option VnetHdr} {packet : List Byte}
    (hparse : parseIp4 d vhdr false = .ok p) (h : Output4 g p out packet) : NoLoop4 d vhdr packet := by
  have hp := parsed4_of_parseIp4 hparse
  cases h with
  | reply =>
    refine ⟨fun h => absurd rfl h.2.2.2, fun h => ?_⟩
    exact absurd ((version_icmpPacket4 _ _ _ _ _ _).symm.trans h.1) (by decide)
  | error type code word htype hicmp =>
    refine ⟨fun _ => parsed4_carries (fun _ _ h => h) hp hicmp, fun h => ?_⟩
    exact absurd ((version_icmpPacket4 _ _ _ _ _ _).symm.trans h.1) (by decide)
  | @whole src dest q hdata hq =>
    refine .of_ip6 (Ip6.version_toBytes rfl _) fun h => ?_
    have hproto : p.dataProto = 1 := by
      by_contra hne
      exact hp.hicmp6 ((if_neg hne).symm.trans h.2.1)
    have := upper4_of_data hp hproto hq
    exact absurd h.2.2 (Nat.not_lt.2 this)
  | fragment hdata hv hnext =>
    rw [List.append_assoc]
    refine .of_ip6 (Ip6.version_toBytes hv _) fun h => ?_
    exact absurd (hnext.symm.trans h.2.1) (by decide)
  | translated hdest httl hicmp h =>
    refine ⟨fun h4 => absurd ((errorTo6_version h).symm.trans h4.1) (by decide), fun _ p' q hparse' hq => ?_⟩
    cases hparse.symm.trans hparse'
    obtain ⟨-, -, hquote, -, -⟩ := h
    exact quote4_carries hquote hq

private theorem transport_not_message {proto type : Byte} (h : IsTransport proto) : ¬OtherMessage proto type := by
  have hne := transport_not_icmp h
  rintro (hicmp | hicmp)
  · exact hne.1 hicmp.1
  · exact hne.2 hicmp.1

private theorem noLoop4_of_gsoOutput {v : VnetHdr} {out : Option VnetHdr} {packet : List Byte}
    (h : GsoOutput4 g d v out packet) : NoLoop4 d vhdr packet := by
  cases h with
  | error type code word hproto hvalid htype =>
    refine ⟨fun _ hcarries => ?_, fun h => ?_⟩
    · have hmessage := hcarries.2.2
      rw [(gsoValidateIpv4Header_valid hvalid).1.hproto] at hmessage
      exact transport_not_message hproto hmessage
    · exact absurd ((version_icmpPacket4 _ _ _ _ _ _).symm.trans h.1) (by decide)
  | segment rest hv hproto =>
    exact .of_ip6 (Ip6.version_toBytes hv _) fun h => (transport_not_icmp hproto).2 h.2.1
  | tcp hv hproto => exact .of_ip6 (Ip6.version_toBytes hv _) fun h => absurd (hproto.symm.trans h.2.1) (by decide)
  | udp hv hproto => exact .of_ip6 (Ip6.version_toBytes hv _) fun h => absurd (hproto.symm.trans h.2.1) (by decide)

/-! ### IPv6 packets -/

private theorem parseIp6_wellFormed {em : Bool} {p : Pkt6}
    (h : parseIp6 d vhdr em = .ok p ∨ ∃ ptr, parseIp6 d vhdr em = .routing ptr p) :
    ∃ hs, WellFormed6 em d hs p.frag p.dataProto p.data := by
  have hkept : ∀ n, parseIp6 d vhdr em ≠ .drop n := by
    rintro n hn
    rcases h with h | ⟨ptr, h⟩ <;> cases h.symm.trans hn
  obtain ⟨hs, frag, proto, data, hwf⟩ := wellFormed_of_parseIp6 hkept
  obtain ⟨q, ptr, -, -, -, -, rfl, rfl, rfl, -, hq⟩ := parseIp6_of_wellFormed vhdr hwf
  have hsame : p = q := by
    rcases h with h | ⟨ptr', h⟩ <;> rw [h] at hq <;> split at hq <;> cases hq <;> rfl
  rw [hsame]
  exact ⟨hs, hwf⟩

/-- A message that is not hidden is the one the parser sees. -/
private theorem carries6_iff {em : Bool} {mask : BitVec 16} {P : Byte → Byte → Prop} {p : Pkt6}
    (hP : ∀ proto type, P proto type → OtherMessage proto type)
    (h : parseIp6 d vhdr em = .ok p ∨ ∃ ptr, parseIp6 d vhdr em = .routing ptr p) :
    Carries6 mask P d ∧ ¬IcmpOther6 p ↔ Hidden mask P p := by
  obtain ⟨hs, hwf⟩ := parseIp6_wellFormed h
  exact carries6_hidden hP hwf

private theorem quote6_carries {mask : BitVec 16} {p em : Pkt6} {q : List Byte} (hem : quote6 p = some em)
    (hq : quoted6 p = some q) : Carries6 mask ErrorMessage q ↔ Hidden mask ErrorMessage em := by
  obtain ⟨⟨q', hquoted, hparse⟩, hother⟩ := quote6_eq_some hem
  cases hquoted.symm.trans hq
  rw [← carries6_iff (fun _ _ => ErrorMessage.other) (.inl hparse)]
  exact (and_iff_left hother).symm

private theorem isIcmpError6_errorPacket6 {type code : Byte} {word : BitVec 32} {p : Pkt6}
    (htype : type ∈ ([1, 2, 3, 4] : List Byte)) : IsIcmpError6 (errorPacket6 g type code word p) := by
  have hall : ∀ type ∈ ([1, 2, 3, 4] : List Byte), type.toNat < 128 := by decide
  exact ⟨version_icmpPacket6 _ _ _ _ _ _, rfl, hall type htype⟩

private theorem isIcmpError4_errorTo4 {p : Pkt6} {packet : List Byte} (hproto : p.dataProto = 58)
    (h : ErrorTo4 g p packet) :
    IsIcmpError4 packet := by
  have hversion := errorTo4_version h
  obtain ⟨hquote, hicmp, hem, hpayload, hip4⟩ := h
  have hall : ∀ type ∈ ([3, 11, 12] : List Byte), type ≠ 8 ∧ type ≠ 0 := by decide
  refine ⟨hversion, ?_, hall _ (xlateIcmpError6to4_type hicmp).2⟩
  refine hip4.hproto.trans ?_
  rw [hproto]
  rfl

/-- An error is due for every accepted packet an error is sent about. -/
private theorem refused6_of_mem {p : Pkt6} {packet : List Byte} (hparse : parseIp6 d vhdr false = .ok p)
    (hvalid : Valid6 g p)
    (hp : p.dataProto ≠ 58) (hmem : packet ∈ written ans (handlePlain6 g d vhdr)) (hv : version packet = 6) :
    Refused6 g ans p := by
  rw [handlePlain6_verdict hparse hvalid hp] at hmem
  rcases hverdict : verdict6 g ans p with _ | ⟨type, code, word⟩ | ⟨src, dest⟩
  · rw [hverdict] at hmem
    cases hmem
  · exact verdict6_error.1 ⟨type, code, word, hverdict⟩
  · rw [hverdict] at hmem
    exact absurd ((xlate6to4Emit_version hmem).symm.trans hv) (by decide)

private theorem mem_of_refused6 {p : Pkt6} (hparse : parseIp6 d vhdr false = .ok p) (hvalid : Valid6 g p)
    (hp : p.dataProto ≠ 58) (h : Refused6 g ans p) :
    ∃ packet ∈ written ans (handlePlain6 g d vhdr), IsIcmpError6 packet := by
  obtain ⟨type, code, word, hverdict⟩ := verdict6_error.2 h
  rw [handlePlain6_verdict hparse hvalid hp, hverdict]
  exact ⟨_, List.mem_singleton_self _, isIcmpError6_errorPacket6 (verdict6_type hverdict)⟩

private theorem NoLoop6.of_ip6 {packet : List Byte} (hv : version packet = 6)
    (h : IsIcmpError6 packet → ¬Carries6 ip6FMask OtherMessage d) : NoLoop6 d vhdr packet :=
  ⟨h, fun h4 => absurd (hv.symm.trans h4.1) (by decide)⟩

private theorem NoLoop6.of_ip4 {packet : List Byte} (hv : version packet = 4) (h : ¬IsIcmpError4 packet) :
    NoLoop6 d vhdr packet :=
  ⟨fun h6 => absurd (hv.symm.trans h6.1) (by decide), fun h4 => absurd h4 h⟩

private theorem noLoop6_of_output {p : Pkt6} {out : Option VnetHdr} {packet : List Byte} (hgso : isGso vhdr = false)
    (hparse : parseIp6 d vhdr false = .ok p) (hvalid : Valid6 g p) (hshown : ¬HiddenIcmp g ans d vhdr)
    (hmem : packet ∈ written ans (handlePlain6 g d vhdr)) (h : Output6 g p out packet) : NoLoop6 d vhdr packet := by
  cases h with
  | reply =>
    refine .of_ip6 (version_icmpPacket6 _ _ _ _ _ _) fun h => ?_
    exact absurd h.2.2 (show ¬(129 : Byte).toNat < 128 by decide)
  | error type code word htype hicmp =>
    have hversion := version_icmpPacket6 g.endian 0 g.localAddr6 p.ip6.src ⟨type, code, 0, word⟩
      ((p.header ++ p.data).take (1280 - 40 - 8))
    refine .of_ip6 hversion fun _ hcarries => ?_
    have hhidden := (carries6_iff (fun _ _ h => h) (.inl hparse)).1 ⟨hcarries, hicmp⟩
    have hp : p.dataProto ≠ 58 := fun h => absurd (h ▸ hhidden.hstop) (by decide)
    exact hshown (.refused hparse hvalid (refused6_of_mem hparse hvalid hp hmem hversion) hhidden)
  | @whole src dest ip4 q hdata hfit hip4 hq =>
    refine .of_ip4 (Ip4.version_toBytes (h := ip4.withCksum _) hip4.hverIhl _) fun h => ?_
    obtain ⟨hs, hwf, -⟩ := parseIp6_eq_ok hparse
    have hproto : p.dataProto = 58 := by
      by_contra hne
      have hone : ip4.proto = 1 := h.2.1
      rw [hip4.hproto, proto6to4, if_neg hne] at hone
      exact hwf.hicmp4 hone
    rcases upper6_of_data hparse hproto hq with htype | htype
    · exact h.2.2.1 htype
    · exact h.2.2.2 htype
  | translated hdest hhops hicmp h =>
    refine ⟨fun h6 => absurd ((errorTo4_version h).symm.trans h6.1) (by decide), fun _ p' q hparse' hq hcarries => ?_⟩
    cases hparse.symm.trans hparse'
    obtain ⟨hquote, -, -, -, -⟩ := h
    have hhandle : handleIp6 g false d vhdr = handlePlain6 g d vhdr := by
      unfold handleIp6
      rw [hgso, if_neg Bool.false_ne_true]
    rw [← hhandle] at hmem
    exact hshown (.quoted hparse (translatedError6 hgso hparse hvalid hdest hhops hicmp hmem) hquote
      ((quote6_carries hquote hq).1 hcarries))

private theorem gsoValidIp6_carries {mask : BitVec 16} {proto : Byte} (hproto : IsTransport proto)
    (h : gsoValidIp6 d proto) :
    ¬Carries6 mask OtherMessage d := by
  unfold gsoValidIp6 at h
  simp only [decide_eq_true_eq] at h
  have hext : proto ∉ extProtocols := by rcases hproto with rfl | rfl <;> decide
  rintro ⟨proto', rest, hupper, -, hmessage⟩
  rw [h.2.1, UpperLayer.here_iff hext] at hupper
  rw [hupper.1] at hmessage
  exact transport_not_message hproto hmessage

private theorem noLoop6_of_gsoOutput {v : VnetHdr} {out : Option VnetHdr} {packet : List Byte}
    (h : GsoOutput6 g d v out packet) : NoLoop6 d vhdr packet := by
  have hip4 : ∀ {h : Ip4} {rest : List Byte}, h.verIhl = 0x45 → h.proto ≠ 1 → NoLoop6 d vhdr (h.toBytes ++ rest) :=
    fun hv hne => .of_ip4 (Ip4.version_toBytes hv _) fun h => hne h.2.1
  cases h with
  | error type code word hproto hvalid htype =>
    exact .of_ip6 (version_icmpPacket6 _ _ _ _ _ _) fun _ => gsoValidIp6_carries hproto hvalid
  | segment rest hv hproto => exact hip4 hv (transport_not_icmp hproto).1
  | tcpHead =>
    obtain ⟨h, rest, heq, hv, hproto⟩ := gsoTcpHead_ip4 (g := g) v (gsoPkt6 d v 6) (tcpHdrLen (d.drop 40)) _ _ _
    rw [heq]
    exact hip4 hv (by rw [hproto]; decide)
  | tcpTail =>
    obtain ⟨h, rest, heq, hv, hproto⟩ := gsoTcpTail_ip4 (g := g) (gsoPkt6 d v 6) (tcpHdrLen (d.drop 40)) _ _ _ _
    rw [heq]
    exact hip4 hv (by rw [hproto]; decide)
  | tcp hv hproto => exact hip4 hv (by rw [hproto]; decide)
  | udp hv hproto => exact hip4 hv (by rw [hproto]; decide)

/-- A hidden message is answered with an error, or its error is translated. -/
private theorem hiddenIcmp_loop {offload : Bool} (hgso : isGso vhdr = false) (h : HiddenIcmp g ans d vhdr) :
    ∃ packet ∈ written ans (handleIp6 g offload d vhdr), ¬NoLoop6 d vhdr packet := by
  have hplain : handleIp6 g offload d vhdr = handlePlain6 g d vhdr := by
    unfold handleIp6
    rw [hgso, if_neg Bool.false_ne_true]
  cases h with
  | @pending ptr p hparse hhidden =>
    obtain ⟨hcarries, hother⟩ := (carries6_iff (fun _ _ h => h) (.inr ⟨ptr, hparse⟩)).2 hhidden
    have hp : p.dataProto ≠ 58 := fun h => absurd (h ▸ hhidden.hstop) (by decide)
    refine ⟨errorPacket6 g 4 0 (BitVec.ofNat 32 ptr) p, ?_, fun h => ?_⟩
    · rw [hplain]
      unfold handlePlain6
      rw [hparse]
      dsimp only
      rw [hostSendIcmp6Error_eq hp]
      exact List.mem_singleton_self _
    · exact h.hown (isIcmpError6_errorPacket6 (by decide)) hcarries
  | @refused p hparse hvalid hrefused hhidden =>
    obtain ⟨hcarries, hother⟩ := (carries6_iff (fun _ _ h => h) (.inl hparse)).2 hhidden
    have hp : p.dataProto ≠ 58 := fun h => absurd (h ▸ hhidden.hstop) (by decide)
    obtain ⟨packet, hmem, herror⟩ := mem_of_refused6 hparse hvalid hp hrefused
    rw [hplain]
    exact ⟨packet, hmem, fun h => h.hown herror hcarries⟩
  | @quoted p em hparse htranslated hem hhidden =>
    obtain ⟨packet, hmem⟩ := List.exists_mem_of_ne_nil _ ((xlate6to4IcmpError_written p).2 htranslated.htranslates)
    obtain ⟨-, -, herror⟩ := (xlate6to4IcmpError_errorTo4 p).mem_written hmem
    obtain ⟨⟨q, hq, -⟩, -⟩ := quote6_eq_some hem
    have hicmp := htranslated.hicmp
    rw [DataPacket6, not_or, not_not] at hicmp
    rw [htranslated.handleIp6_eq hgso hparse]
    refine ⟨packet, hmem, fun h => ?_⟩
    exact h.htranslated (isIcmpError4_errorTo4 hicmp.1 herror) p q hparse hq ((quote6_carries hem hq).2 hhidden)

/-- **No error about an error**, but for the messages that are hidden from the parser. -/
theorem no_error_loop (g : Gcfg) (offload : Bool) (d : List Byte) (vhdr : Option VnetHdr)
    (ans : (op : PktOp) → op.Ans) :
    (∀ packet ∈ written ans (handleIp4 g offload d vhdr), NoLoop4 d vhdr packet) ∧
    ((∀ packet ∈ written ans (handleIp6 g offload d vhdr), NoLoop6 d vhdr packet) ↔
      ¬(isGso vhdr = false ∧ HiddenIcmp g ans d vhdr)) := by
  refine ⟨fun packet hmem => ?_, fun h ⟨hgso, hhidden⟩ => ?_, fun hshown packet hmem => ?_⟩
  · obtain ⟨out, ⟨hgso, p, hparse, -, h⟩ | ⟨v, -, -, h⟩⟩ := handleIp4_output.mem_written hmem
    · exact noLoop4_of_output hparse h
    · exact noLoop4_of_gsoOutput h
  · obtain ⟨packet, hmem, hloop⟩ := hiddenIcmp_loop hgso hhidden
    exact hloop (h packet hmem)
  · obtain ⟨out, ⟨hgso, p, ⟨hparse, hvalid, h⟩ | ⟨⟨ptr, hparse⟩, hother, word, -, rfl⟩⟩ | ⟨v, -, -, h⟩⟩ :=
      handleIp6_output.mem_written hmem
    · have hplain : handleIp6 g offload d vhdr = handlePlain6 g d vhdr := by
        unfold handleIp6
        rw [hgso, if_neg Bool.false_ne_true]
      rw [hplain] at hmem
      exact noLoop6_of_output hgso hparse hvalid (fun h => hshown ⟨hgso, h⟩) hmem h
    · refine .of_ip6 (version_icmpPacket6 _ _ _ _ _ _) fun _ hcarries => ?_
      exact hshown ⟨hgso, .pending hparse ((carries6_iff (fun _ _ h => h) (.inr ⟨ptr, hparse⟩)).1 ⟨hcarries, hother⟩)⟩
    · exact noLoop6_of_gsoOutput h

/-- An IPv6 header with hop limit 1, in front of an Authentication header. -/
def authIp6 : List Byte :=
  [0x60, 0x00, 0x00, 0x00, 0x00, 0x48, 0x33, 0x01, 0x20, 0x01, 0x0d, 0xb8, 0x00, 0x00, 0x00, 0x00, 0x00, 0x00, 0x00,
    0x00, 0x00, 0x00, 0x00, 0x01, 0x00, 0x64, 0xff, 0x9b, 0x00, 0x00, 0x00, 0x00, 0x00, 0x00, 0x00, 0x00, 0xc0, 0x00,
    0x02, 0x01]

/-- The Authentication header, in front of an ICMPv6 message. -/
def authHeader : List Byte :=
  [0x3a, 0x04, 0x00, 0x00, 0x00, 0x00, 0x01, 0x00, 0x00, 0x00, 0x00, 0x01, 0x00, 0x00, 0x00, 0x00, 0x00, 0x00, 0x00,
    0x00, 0x00, 0x00, 0x00, 0x00]

/-- A Destination Unreachable. -/
def authIcmp : List Byte :=
  [0x01, 0x00, 0xad, 0xdd, 0x00, 0x00, 0x00, 0x00, 0x60, 0x00, 0x00, 0x00, 0x00, 0x00, 0x11, 0x40, 0x00, 0x64, 0xff,
    0x9b, 0x00, 0x00, 0x00, 0x00, 0x00, 0x00, 0x00, 0x00, 0xc0, 0x00, 0x02, 0x01, 0x20, 0x01, 0x0d, 0xb8, 0x00, 0x00,
    0x00, 0x00, 0x00, 0x00, 0x00, 0x00, 0x00, 0x00, 0x00, 0x01]

/-- The error behind the Authentication header is answered with a Time Exceeded. -/
theorem not_noLoop_auth : Carries6 ip6FMask ErrorMessage (authIp6 ++ authHeader ++ authIcmp) ∧
    ∃ packet ∈ written sampleAns (handleIp6 sampleGcfg true (authIp6 ++ authHeader ++ authIcmp) none),
      IsIcmpError6 packet ∧ getU8 packet 40 = 3 ∧ ¬NoLoop6 (authIp6 ++ authHeader ++ authIcmp) none packet := by
  have hwritten : ∃ packet ∈ written sampleAns (handleIp6 sampleGcfg true (authIp6 ++ authHeader ++ authIcmp) none),
      version packet = 6 ∧ getU8 packet 6 = 58 ∧ getU8 packet 40 = 3 := by decide +kernel
  have hdata : ip6Data (authIp6 ++ authHeader ++ authIcmp) = authHeader ++ authIcmp := by decide +kernel
  have hupper : UpperLayer ip6FMask 51 (authHeader ++ authIcmp) 58 authIcmp :=
    .auth (by decide) (.here (by decide))
  have hcarries : ∀ {P : Byte → Byte → Prop}, P 58 1 → Carries6 ip6FMask P (authIp6 ++ authHeader ++ authIcmp) := by
    intro P hP
    refine ⟨58, authIcmp, ?_, by decide, hP⟩
    rw [hdata]
    exact hupper
  obtain ⟨packet, hmem, hversion, hproto, htype⟩ := hwritten
  have herror : IsIcmpError6 packet := ⟨hversion, hproto, by rw [htype]; decide⟩
  exact ⟨hcarries (.inr (by decide)), packet, hmem, herror, htype, fun h => h.hown herror (hcarries (.inr (by decide)))⟩

end Tayga
