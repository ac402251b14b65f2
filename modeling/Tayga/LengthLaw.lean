import Tayga.IcmpLaw

/-!
# Length fields

The length a header is written with is the length of the packet behind it, in the packets on the data path, in their
fragments and in the ICMP errors, and in the headers an error quotes it is the length of the quoted packet in the other
family, or 65535 (`Lengths4`, `Lengths6`).  Only the IPv4 header of a quoted IPv6 packet is not saturated: it wraps if
the quoted packet claims to be longer than 65535 bytes in IPv4 (`lengths_right`).
-/

namespace Tayga

open Program

variable {g : Gcfg} {d : List Byte} {vhdr : Option VnetHdr} {ans : (op : PktOp) → op.Ans}

/-! ### Packets written for an IPv4 packet -/

/-- The lengths in a packet written for `p`: an IPv4 packet is an ICMP message of the translator's own, and a packet
written for an ICMP error quotes another one. -/
structure Lengths4 (p : Pkt4) (packet : List Byte) : Prop where
  hown : version packet = 4 → (getBe16 packet 2).toNat = packet.length
  hpacket : version packet = 6 → (getBe16 packet 4).toNat + 40 = packet.length
  hquoted : version packet = 6 → ¬DataPacket4 p → ∀ em, quote4 p = some em →
    (getBe16 packet 52).toNat = min 65535 (em.ip4.length.toNat - em.headerLen + em.fragLen)

theorem Lengths4.own {p : Pkt4} {packet : List Byte} (hv : version packet = 4)
    (hlen : (getBe16 packet 2).toNat = packet.length) : Lengths4 p packet := by
  have hne : version packet ≠ 6 := by
    rw [hv]
    decide
  exact ⟨fun _ => hlen, fun h => absurd h hne, fun h => absurd h hne⟩

theorem Lengths4.data {p : Pkt4} {packet : List Byte} (hdata : DataPacket4 p) (hv : version packet = 6)
    (hlen : (getBe16 packet 4).toNat + 40 = packet.length) : Lengths4 p packet := by
  have hne : version packet ≠ 4 := by
    rw [hv]
    decide
  exact ⟨fun h => absurd h hne, fun _ => hlen, fun _ hicmp => absurd hdata hicmp⟩

private theorem icmpPacket4_length {e : Endian} {tos : Byte} {src dest : In4} {icmp : Icmp} {data : List Byte}
    (hle : 28 + data.length < 65536) : (getBe16 (icmpPacket4 e tos src dest icmp data) 2).toNat =
    (icmpPacket4 e tos src dest icmp data).length := by
  unfold icmpPacket4
  dsimp only
  rw [List.append_assoc]
  refine ip4_length ?_ ?_ <;> rw [List.length_append, length_icmp, ← Nat.add_assoc]
  · rfl
  · exact hle

/-- The length of a quoted packet in its new header. -/
private theorem emHeader4to6_length (em : Pkt4) (src dest : In6) (rest : List Byte) :
    (getBe16 (emHeader4to6 em src dest ++ rest) 4).toNat =
    min 65535 (em.ip4.length.toNat - em.headerLen + em.fragLen) := by
  have hfield : getBe16 (emHeader4to6 em src dest ++ rest) 4 = (emIp6 em src dest).payloadLength := by
    unfold emHeader4to6
    dsimp only
    split <;> exact append_be16 _
  rw [hfield, emIp6, xlateHeader4to6, BitVec.toNat_ofNat]
  generalize em.ip4.length.toNat - em.headerLen + em.fragLen = n
  split <;> omega

private theorem drop_errorPacket4to6 (p : Pkt4) (src dest : In6) (icmp : Icmp) (emHeader emData : List Byte) :
    (errorPacket4to6 g p src dest icmp emHeader emData).drop 48 = emHeader ++ emData := by
  unfold errorPacket4to6
  dsimp only
  rw [List.append_assoc _ emHeader]
  rfl

private theorem errorTo6_lengths {p : Pkt4} {packet : List Byte} (hicmp : ¬DataPacket4 p) (h : ErrorTo6 g p packet) :
    Lengths4 p packet := by
  have hne : version packet ≠ 4 := by
    rw [errorTo6_version h]
    decide
  rw [DataPacket4, not_or, not_not] at hicmp
  refine ⟨fun h4 => absurd h4 hne, fun _ => (errorTo6_wellFormed hicmp.1 h).hlen, fun _ _ em hem => ?_⟩
  obtain ⟨emSrc, emDest, hquote, -, -⟩ := h
  cases hquote.symm.trans hem
  rw [← emHeader4to6_length em emSrc emDest, ← drop_errorPacket4to6, getBe16_drop]

private theorem lengths4_of_output {p : Pkt4} {out : Option VnetHdr} {packet : List Byte} (hp : Parsed4 d vhdr false p)
    (h : Output4 g p out packet) : Lengths4 p packet := by
  have htotal := hp.hlen
  have hmin := hp.hmin
  have hmax := p.ip4.length.isLt
  cases h with
  | reply hdest hicmp =>
    refine .own (version_icmpPacket4 _ _ _ _ _ _) (icmpPacket4_length ?_)
    have := (hp.hicmp hicmp.1).1
    rw [List.length_drop]
    omega
  | error type code word htype =>
    refine .own (version_icmpPacket4 _ _ _ _ _ _) (icmpPacket4_length ?_)
    rw [List.length_take]
    omega
  | @whole src dest q hdata hq =>
    have hlen := length_payload4to6 hp hq
    refine .data hdata (Ip6.version_toBytes rfl _) (ip6_length ?_ (by omega))
    rw [hlen]
    rfl
  | @fragment ip6 frag part hdata hv hnext hlen hle =>
    have hpart : (frag.toBytes ++ part).length = 8 + part.length := by rw [List.length_append, length_ip6Frag]
    rw [List.append_assoc]
    exact .data hdata (Ip6.version_toBytes hv _) (ip6_length (by rw [hlen, hpart]) (by omega))
  | translated hdest httl hicmp h => exact errorTo6_lengths hicmp h

/-! ### Packets written for an IPv6 packet -/

/-- The lengths in a packet written for `p`: an IPv6 packet is an ICMP message of the translator's own, and a packet
written for an ICMPv6 error quotes another one. -/
structure Lengths6 (p : Pkt6) (packet : List Byte) : Prop where
  hown : version packet = 6 → (getBe16 packet 4).toNat + 40 = packet.length
  hpacket : version packet = 4 → (getBe16 packet 2).toNat = packet.length
  hquoted : version packet = 4 → ¬DataPacket6 p → ∀ em, quote6 p = some em →
    (getBe16 packet 30).toNat = min 65535 (20 + emLength6to4 em)

/-- An ICMPv6 error that is translated, about a packet that claims to be longer in IPv4 than can be. -/
structure WrappedQuote (g : Gcfg) (ans : (op : PktOp) → op.Ans) (p : Pkt6) : Prop extends TranslatedError6 g ans p where
  hlong : ∃ em, quote6 p = some em ∧ 65535 < 20 + emLength6to4 em

theorem Lengths6.own {p : Pkt6} {packet : List Byte} (hv : version packet = 6)
    (hlen : (getBe16 packet 4).toNat + 40 = packet.length) : Lengths6 p packet := by
  have hne : version packet ≠ 4 := by
    rw [hv]
    decide
  exact ⟨fun _ => hlen, fun h => absurd h hne, fun h => absurd h hne⟩

theorem Lengths6.data {p : Pkt6} {packet : List Byte} (hdata : DataPacket6 p) (hv : version packet = 4)
    (hlen : (getBe16 packet 2).toNat = packet.length) : Lengths6 p packet := by
  have hne : version packet ≠ 6 := by
    rw [hv]
    decide
  exact ⟨fun h => absurd h hne, fun _ => hlen, fun _ hicmp => absurd hdata hicmp⟩

private theorem drop_errorPacket6to4 (ip4 : Ip4) (icmp : Icmp) (emHeader emData : List Byte) :
    (errorPacket6to4 g ip4 icmp emHeader emData).drop 28 = emHeader ++ emData := by
  unfold errorPacket6to4
  dsimp only
  rw [List.append_assoc _ emHeader]
  rfl

/-- The length of a quoted packet in its new header, which is not saturated. -/
private theorem errorTo4_quoted {p em : Pkt6} {packet : List Byte} (h : ErrorTo4 g p packet)
    (hem : quote6 p = some em) :
    (getBe16 packet 30).toNat = (20 + emLength6to4 em) % 65536 := by
  obtain @⟨em', icmp, src, dest, emSrc, emDest, ip4, emIp4, q, hquote, -, hheader, -, -⟩ := h
  cases hquote.symm.trans hem
  have hlen : emIp4.length.toNat = (20 + emLength6to4 em) % 65536 := by
    rw [hheader.hlength]
    exact BitVec.toNat_ofNat _ _
  rw [← getBe16_drop _ 28 2, drop_errorPacket6to4, ← hlen]
  exact congrArg BitVec.toNat (append_be16 emIp4.length)

private theorem icmpPacket6_length {e : Endian} {tc : Byte} {src dest : In6} {icmp : Icmp} {data : List Byte}
    (hle : 8 + data.length < 65536) : (getBe16 (icmpPacket6 e tc src dest icmp data) 4).toNat + 40 =
    (icmpPacket6 e tc src dest icmp data).length := by
  unfold icmpPacket6
  dsimp only
  rw [List.append_assoc]
  refine ip6_length ?_ ?_ <;> rw [List.length_append, length_icmp]
  exact hle

private theorem errorPacket6_length (type code : Byte) (word : BitVec 32) (p : Pkt6) :
    (getBe16 (errorPacket6 g type code word p) 4).toNat + 40 = (errorPacket6 g type code word p).length := by
  refine icmpPacket6_length ?_
  rw [List.length_take]
  omega

private theorem errorTo4_lengths {p : Pkt6} {packet : List Byte} (hicmp : ¬DataPacket6 p) (h : ErrorTo4 g p packet)
    (hshort : ∀ em, quote6 p = some em → 20 + emLength6to4 em ≤ 65535) : Lengths6 p packet := by
  have hne : version packet ≠ 6 := by
    rw [errorTo4_version h]
    decide
  rw [DataPacket6, not_or, not_not] at hicmp
  refine ⟨fun h6 => absurd h6 hne, fun _ => (errorTo4_wellFormed hicmp.1 h).hlen, fun _ _ em hem => ?_⟩
  have := hshort em hem
  rw [errorTo4_quoted h hem]
  omega

private theorem lengths6_of_output {p : Pkt6} {out : Option VnetHdr} {packet : List Byte}
    (hp : parseIp6 d vhdr false = .ok p) (hvalid : Valid6 g p) (hmtu : g.mtu < 65536)
    (hshort : ErrorTo4 g p packet → p.ip6.dest ≠ g.localAddr6 → p.ip6.hopLimit ≠ 1 → ¬DataPacket6 p →
      ∀ em, quote6 p = some em → 20 + emLength6to4 em ≤ 65535)
    (h : Output6 g p out packet) : Lengths6 p packet := by
  have hlen := hvalid.hlen
  have hmax := p.ip6.payloadLength.isLt
  cases h with
  | reply hdest hicmp =>
    refine .own (version_icmpPacket6 _ _ _ _ _ _) (icmpPacket6_length ?_)
    obtain ⟨hs, hwf, -⟩ := parseIp6_eq_ok hp
    have := (hwf.hicmp hicmp.1).1
    rw [List.length_drop]
    omega
  | error type code word => exact .own (version_icmpPacket6 _ _ _ _ _ _) (errorPacket6_length _ _ _ _)
  | @whole src dest ip4 q hdata hfit hip4 hq =>
    have hkept := length_payload6to4 hp hq
    refine .data hdata (Ip4.version_toBytes (h := ip4.withCksum _) hip4.hverIhl _) (ip4_length ?_ (by omega))
    rw [hkept]
    exact hip4.hlength
  | translated hdest hhops hicmp h => exact errorTo4_lengths hicmp h (hshort h hdest hhops hicmp)

/-! ### The law -/

/-- **Length fields do not wrap**, but for that of a quoted IPv6 packet that claims to be too long for IPv4.  (The MTU
is a 16-bit number.) -/
theorem lengths_right (g : Gcfg) (offload : Bool) (d : List Byte) (vhdr : Option VnetHdr)
    (ans : (op : PktOp) → op.Ans) (hgso : isGso vhdr = false) (hmtu : g.mtu < 65536) :
    (∀ p, parseIp4 d vhdr false = .ok p → ∀ packet ∈ written ans (handleIp4 g offload d vhdr), Lengths4 p packet) ∧
    ∀ p, parseIp6 d vhdr false = .ok p →
      ((∀ packet ∈ written ans (handleIp6 g offload d vhdr), Lengths6 p packet) ↔ ¬WrappedQuote g ans p) := by
  refine ⟨fun p hparse packet hmem => ?_, fun p hparse => ⟨fun h hwrapped => ?_, fun hshort packet hmem => ?_⟩⟩
  · obtain ⟨out, ⟨-, p', hparse', -, h⟩ | ⟨v, -, hgso', -⟩⟩ := handleIp4_output.mem_written hmem
    · cases hparse.symm.trans hparse'
      exact lengths4_of_output (parsed4_of_parseIp4 hparse) h
    · rw [hgso] at hgso'
      cases hgso'
  · obtain ⟨em, hem, hlong⟩ := hwrapped.hlong
    have hne := (xlate6to4IcmpError_written p).2 hwrapped.htranslates
    obtain ⟨packet, hmem⟩ := List.exists_mem_of_ne_nil _ hne
    obtain ⟨-, -, herror⟩ := (xlate6to4IcmpError_errorTo4 p).mem_written hmem
    have hright := h packet (by
      rw [hwrapped.handleIp6_eq hgso hparse]
      exact hmem)
    have hfield := hright.hquoted (errorTo4_version herror) hwrapped.hicmp em hem
    have hmax := em.ip6.payloadLength.isLt
    rw [errorTo4_quoted herror hem] at hfield
    unfold emLength6to4 at hlong hfield
    omega
  · obtain ⟨out, ⟨-, p', ⟨hparse', hvalid, h⟩ | ⟨⟨ptr, hrouting⟩, -⟩⟩ | ⟨v, -, hgso', -⟩⟩ :=
      handleIp6_output.mem_written hmem
    · cases hparse.symm.trans hparse'
      refine lengths6_of_output hparse hvalid hmtu (fun herror hdest hhops hicmp em hem => ?_) h
      by_contra hlong
      exact hshort ⟨translatedError6 hgso hparse hvalid hdest hhops hicmp hmem, em, hem, Nat.not_le.1 hlong⟩
    · cases hparse.symm.trans hrouting
    · rw [hgso] at hgso'
      cases hgso'

/-- A Destination Unreachable about a UDP packet of 1500 bytes, of which the header and eight bytes are quoted. -/
def unreachable4 : List Byte :=
  [0x45, 0x00, 0x00, 0x38, 0x00, 0x00, 0x00, 0x00, 0x40, 0x01, 0x8e, 0x8f, 0xc6, 0x33, 0x64, 0x01, 0xc0, 0x00, 0x02,
    0x01, 0x03, 0x01, 0x0f, 0xa2, 0x00, 0x00, 0x00, 0x00] ++
  [0x45, 0x00, 0x05, 0xdc, 0x00, 0x01, 0x40, 0x00, 0x40, 0x11, 0x00, 0x00, 0xc0, 0x00, 0x02, 0x01, 0xc6, 0x33, 0x64,
    0x01, 0x30, 0x39, 0x00, 0x35, 0x05, 0xc8, 0x00, 0x01]

/-- A Destination Unreachable about a UDP packet of 1280 bytes behind its IPv6 header, quoted in the same way. -/
def unreachable6 : List Byte :=
  [0x60, 0x00, 0x00, 0x00, 0x00, 0x38, 0x3a, 0x40, 0x20, 0x01, 0x0d, 0xb8, 0x00, 0x00, 0x00, 0x00, 0x00, 0x00,
    0x00, 0x00, 0x00, 0x00, 0x00, 0x01, 0x00, 0x64, 0xff, 0x9b, 0x00, 0x00, 0x00, 0x00, 0x00, 0x00, 0x00, 0x00,
    0xc0, 0x00, 0x02, 0x01, 0x01, 0x00, 0x73, 0x66, 0x00, 0x00, 0x00, 0x00, 0x60, 0x00, 0x00, 0x00, 0x05, 0x00,
    0x11, 0x40, 0x00, 0x64, 0xff, 0x9b, 0x00, 0x00, 0x00, 0x00, 0x00, 0x00, 0x00, 0x00, 0xc0, 0x00, 0x02, 0x01,
    0x20, 0x01, 0x0d, 0xb8, 0x00, 0x00, 0x00, 0x00, 0x00, 0x00, 0x00, 0x00, 0x00, 0x00, 0x00, 0x01, 0x30, 0x39,
    0x00, 0x35, 0x05, 0x00, 0x00, 0x01]

/-- Errors with a quote, in both directions. -/
theorem lengths_right_quoted :
    (∃ p, parseIp4 unreachable4 none false = .ok p ∧ ¬DataPacket4 p ∧
      ∃ packet ∈ written sampleAns (handleIp4 sampleGcfg true unreachable4 none), version packet = 6 ∧
        (getBe16 packet 52).toNat = 1480 ∧ Lengths4 p packet) ∧
    ∃ p, parseIp6 unreachable6 none false = .ok p ∧ ¬DataPacket6 p ∧
      ∃ packet ∈ written sampleAns (handleIp6 sampleGcfg true unreachable6 none), version packet = 4 ∧
        (getBe16 packet 30).toNat = 1300 ∧ Lengths6 p packet := by
  have hlaw4 := (lengths_right sampleGcfg true unreachable4 none sampleAns rfl (by decide)).1
  have hlaw6 := (lengths_right sampleGcfg true unreachable6 none sampleAns rfl (by decide)).2
  have hparse : ∃ p, parseIp6 unreachable6 none false = .ok p ∧ ¬DataPacket6 p ∧
      (quote6 p).map (20 + emLength6to4 ·) = some 1300 := ⟨_, rfl, by decide +kernel, by decide +kernel⟩
  obtain ⟨p, hp, hicmp, hquote⟩ := hparse
  refine ⟨⟨_, rfl, by decide +kernel, ?_⟩, ⟨p, hp, hicmp, ?_⟩⟩
  · have hwritten : ∃ packet ∈ written sampleAns (handleIp4 sampleGcfg true unreachable4 none), version packet = 6 ∧
        (getBe16 packet 52).toNat = 1480 := by decide +kernel
    obtain ⟨packet, hmem, hversion, hlen⟩ := hwritten
    exact ⟨packet, hmem, hversion, hlen, hlaw4 _ rfl packet hmem⟩
  · have hwritten : ∃ packet ∈ written sampleAns (handleIp6 sampleGcfg true unreachable6 none), version packet = 4 ∧
        (getBe16 packet 30).toNat = 1300 := by decide +kernel
    obtain ⟨packet, hmem, hversion, hlen⟩ := hwritten
    refine ⟨packet, hmem, hversion, hlen, (hlaw6 p hp).2 (fun hwrapped => ?_) packet hmem⟩
    obtain ⟨em, hem, hlong⟩ := hwrapped.hlong
    rw [hem] at hquote
    have hshort : 20 + emLength6to4 em = 1300 := Option.some.inj hquote
    omega

/-- An ICMPv6 error about a UDP packet of 65535 bytes behind its IPv6 header, of which the header alone is quoted. -/
def longQuote : List Byte :=
  [0x60, 0x00, 0x00, 0x00, 0x00, 0x30, 0x3a, 0x40, 0x20, 0x01, 0x0d, 0xb8, 0x00, 0x00, 0x00, 0x00, 0x00, 0x00, 0x00,
    0x00, 0x00, 0x00, 0x00, 0x01, 0x00, 0x64, 0xff, 0x9b, 0x00, 0x00, 0x00, 0x00, 0x00, 0x00, 0x00, 0x00, 0xc0, 0x00,
    0x02, 0x01, 0x01, 0x00, 0xad, 0xdd, 0x00, 0x00, 0x00, 0x00, 0x60, 0x00, 0x00, 0x00, 0xff, 0xff, 0x11, 0x40, 0x00,
    0x64, 0xff, 0x9b, 0x00, 0x00, 0x00, 0x00, 0x00, 0x00, 0x00, 0x00, 0xc0, 0x00, 0x02, 0x01, 0x20, 0x01, 0x0d, 0xb8,
    0x00, 0x00, 0x00, 0x00, 0x00, 0x00, 0x00, 0x00, 0x00, 0x00, 0x00, 0x01]

/-- The IPv4 header it quotes says 19 bytes. -/
theorem not_lengths_quoted : ∃ p, parseIp6 longQuote none false = .ok p ∧
    ∃ packet ∈ written sampleAns (handleIp6 sampleGcfg true longQuote none), (getBe16 packet 30).toNat = 19 ∧
      (quote6 p).map (20 + emLength6to4 ·) = some 65555 ∧ ¬Lengths6 p packet := by
  have hwritten : ∃ packet ∈ written sampleAns (handleIp6 sampleGcfg true longQuote none),
      (getBe16 packet 30).toNat = 19 ∧ version packet = 4 := by decide +kernel
  have hparse : ∃ p, parseIp6 longQuote none false = .ok p ∧ ¬DataPacket6 p ∧
      (quote6 p).map (20 + emLength6to4 ·) = some 65555 := ⟨_, rfl, by decide +kernel, by decide +kernel⟩
  obtain ⟨packet, hmem, hlen, hversion⟩ := hwritten
  obtain ⟨p, hp, hicmp, hquote⟩ := hparse
  refine ⟨p, hp, packet, hmem, hlen, hquote, fun h => ?_⟩
  obtain ⟨em, hem, hlong⟩ := Option.map_eq_some_iff.1 hquote
  have hfield := h.hquoted hversion hicmp em hem
  rw [hlen, hlong] at hfield
  exact absurd hfield (by decide)

end Tayga
