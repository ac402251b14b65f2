import Tayga.ChecksumProofs
import Tayga.Translated

/-!
# Quotes there and back

An ICMP error about a packet that the translator sent quotes the translated packet.  Translated in its turn, it quotes
the packet that came in: its protocol, its length and its ports, and its addresses if the mapper leads them back
(`quotes_back`).
-/

namespace Tayga

variable {g : Gcfg} {ans ans' : (op : PktOp) → op.Ans} {d packet error : List Byte} {vhdr : Option VnetHdr}
variable {offload : Bool}

/-! ### What identifies a flow -/

/-- The ports of a packet, or identifier and sequence number of an echo message. -/
def portsOf (proto : Byte) (d : List Byte) : BitVec 32 := if proto = 1 ∨ proto = 58 then getBe32 d 4 else getBe32 d 0

private theorem getBe32_congr {d d' : List Byte} {i n : Nat} (hi : i + 4 ≤ n) (h : ∀ k < n, getU8 d k = getU8 d' k) :
    getBe32 d i = getBe32 d' i := by
  unfold getBe32
  rw [h i (by omega), h (i + 1) (by omega), h (i + 2) (by omega), h (i + 3) (by omega)]

/-- Eight bytes are enough. -/
private theorem portsOf_congr {proto : Byte} {d d' : List Byte} (h : ∀ i < 8, getU8 d i = getU8 d' i) :
    portsOf proto d = portsOf proto d' := by
  unfold portsOf
  split
  · exact getBe32_congr (by omega) h
  · exact getBe32_congr (by omega) h

private theorem portsOf_proto {proto proto' : Byte} (h : proto = 1 ∨ proto = 58 ↔ proto' = 1 ∨ proto' = 58) :
    portsOf proto = portsOf proto' := by
  funext d
  unfold portsOf
  by_cases hproto : proto = 1 ∨ proto = 58
  · rw [if_pos hproto, if_pos (h.1 hproto)]
  · rw [if_neg hproto, if_neg (mt h.2 hproto)]

/-- A payload keeps its ports. -/
private theorem portsOf_xlatePayload {x : PayloadCtx} {proto : Byte} {em : Bool} {p q : Payload}
    (hword : ∀ icmp, (x.icmp icmp).word = icmp.word) (hown : x.icmpProto = 1 ∨ x.icmpProto = 58)
    (hicmp : proto = 1 ∨ proto = 58 → proto = x.icmpProto ∧ x.noninitial = false)
    (h : xlatePayload g x proto em p = some q) : portsOf proto q.1 = portsOf proto p.1 := by
  unfold portsOf
  rcases xlatePayload_front h with ⟨hother, hfront⟩ | ⟨-, hproto, hdata⟩
  · have hproto : ¬(proto = 1 ∨ proto = 58) := by
      intro hproto
      obtain ⟨h1, h2⟩ := hicmp hproto
      rw [h2] at hother
      exact hother.elim Bool.false_ne_true fun hne => hne h1
    rw [if_neg hproto, if_neg hproto]
    exact getBe32_congr (by omega) hfront.2
  · have hnew : Icmp.ofBytes q.1 = x.icmp (Icmp.ofBytes p.1) := by
      rw [hdata, put, List.take_zero, List.nil_append]
      exact Icmp.ofBytes_toBytes _ _
    have hkept : getBe32 q.1 4 = getBe32 p.1 4 := (congrArg Icmp.word hnew).trans (hword _)
    rw [hproto, if_pos hown, if_pos hown]
    exact hkept

/-! ### Packets without extension headers -/

private theorem ExtHeaders.of_not_ext {proto proto' : Byte} {data rest : List Byte} {hs : List ExtHdr}
    (h : ExtHeaders proto data hs proto' rest) (hext : ¬isExt proto) : proto' = proto ∧ rest = data := by
  cases h with
  | nil => exact ⟨rfl, rfl⟩
  | cons hcons => exact absurd hcons hext

private theorem Behind.of_not_frag {em : Bool} {proto proto' : Byte} {rest data : List Byte} {frag : Option Ip6Frag}
    (h : Behind em proto rest frag proto' data) (hproto : proto ≠ 44) :
    frag = none ∧ proto' = proto ∧ data = rest := by
  cases h with
  | whole => exact ⟨rfl, rfl, rfl⟩
  | frag => exact absurd rfl hproto

private theorem parseIp6_plain {em : Bool} {p : Pkt6} (hparse : parseIp6 d vhdr em = .ok p)
    (hext : ¬isExt p.ip6.nextHeader) (hfrag : p.ip6.nextHeader ≠ 44) :
    p.frag = none ∧ p.dataProto = p.ip6.nextHeader ∧ p.data = ip6Data d ∧ p.headerLen = 0 := by
  obtain ⟨hs, hwf, -, hip6, hlen, -⟩ := parseIp6_eq_ok hparse
  obtain ⟨proto, rest, hchain, hbehind⟩ := hwf.hchain
  rw [hip6] at hext hfrag
  obtain ⟨rfl, rfl⟩ := hchain.of_not_ext hext
  obtain ⟨hnone, hproto, hdata⟩ := hbehind.of_not_frag hfrag
  rw [hdata] at hlen
  exact ⟨hnone, by rw [hip6]; exact hproto, hdata, by omega⟩

/-! ### Errors about packets from IPv6 -/

/-- TCP, UDP or an echo request, without extension headers. -/
def Queries6 (p : Pkt6) : Prop :=
  p.ip6.nextHeader = 6 ∨ p.ip6.nextHeader = 17 ∨ p.ip6.nextHeader = 58 ∧ p.icmp.type = 128

/-- What the error gives of the packet it quotes is the header of `packet`, as a router found it, and at least 8 bytes
of its data. -/
def QuotesIp4 (e : Pkt4) (packet : List Byte) : Prop :=
  ∀ quote, emData (emLen4 e.icmp) (e.data.drop 8) = some quote → ∃ ttl cksum,
    quote.take 28 = { Ip4.ofBytes packet with ttl := ttl, cksum := cksum }.toBytes ++ (packet.drop 20).take 8

/-- The quoted packet is `p`, the addresses aside. -/
structure AboutIp6 (p : Pkt6) (quote : List Byte) : Prop where
  hnext : (Ip6.ofBytes quote).nextHeader = p.ip6.nextHeader
  hlength : (Ip6.ofBytes quote).payloadLength = p.ip6.payloadLength
  hports : portsOf p.dataProto (quote.drop 40) = portsOf p.dataProto p.data
  hecho : p.dataProto = 58 → getU8 quote 40 = 128

/-- What comes of the error `e` about `packet`, which `p` from IPv6 was sent as: the error quotes `p`, but its addresses
are those the mapper has for the addresses of `packet` by then.  It goes to the sender if `e` does. -/
structure QuotedTo6 (ans ans' : (op : PktOp) → op.Ans) (p : Pkt6) (packet : List Byte) (e : Pkt4) (error : List Byte) :
    Prop where
  hmapped : ans (.mapIp6ToIp4 p.ip6.src true) = .ok (Ip4.ofBytes packet).src ∧
    ans (.mapIp6ToIp4 p.ip6.dest false) = .ok (Ip4.ofBytes packet).dest
  habout : AboutIp6 p (error.drop 48)
  hsrc : (Ip6.ofBytes (error.drop 48)).src = p.ip6.src ↔ ans' (.mapIp4ToIp6 (Ip4.ofBytes packet).src) = .ok p.ip6.src
  hdest : (Ip6.ofBytes (error.drop 48)).dest = p.ip6.dest ↔
    ans' (.mapIp4ToIp6 (Ip4.ofBytes packet).dest) = .ok p.ip6.dest
  hto : e.ip4.dest = (Ip4.ofBytes packet).src → (Ip6.ofBytes error).dest = (Ip6.ofBytes (error.drop 48)).src

private theorem ok_iff {α : Type} {r : Except Error α} {a b : α} (h : r = .ok a) : a = b ↔ r = .ok b := by
  rw [h, Except.ok.injEq]

/-- What a quote of a packet is read as. -/
private theorem quotedFront4 {quote : List Byte} {em : Pkt4} {ttl : Byte} {cksum : BitVec 16}
    (hparse : parseIp4 quote none true = .ok em) (hihl : (Ip4.ofBytes packet).verIhl = 0x45)
    (hlen : 28 ≤ (Ip4.ofBytes packet).length.toNat)
    (hquote : quote.take 28 =
      { Ip4.ofBytes packet with ttl := ttl, cksum := cksum }.toBytes ++ (packet.drop 20).take 8) :
    em.ip4 = { Ip4.ofBytes packet with ttl := ttl, cksum := cksum } ∧ em.headerLen = 20 ∧
    ∀ i < 8, getU8 em.data i = getU8 (packet.drop 20) i := by
  have hp := parsed4_of_parseIp4 hparse
  have hip4 : Ip4.ofBytes quote = { Ip4.ofBytes packet with ttl := ttl, cksum := cksum } := by
    rw [← List.take_append_drop 28 quote, hquote, List.append_assoc]
    exact Ip4.ofBytes_toBytes _ _
  have hheader := parseIp4_headerLen hparse
  rw [hp.hip4, hip4] at hheader ⊢
  rw [show ((Ip4.ofBytes packet).verIhl &&& 0x0f).toNat * 4 = 20 by rw [hihl]; rfl] at hheader
  refine ⟨rfl, hheader, fun i hi => ?_⟩
  have hback : (quote.take 28).drop 20 = (packet.drop 20).take 8 := by
    rw [hquote]
    exact List.drop_left' (length_ip4 _)
  rw [hp.hdata, ip4Data, hip4, show ((Ip4.ofBytes packet).verIhl &&& 0x0f).toNat * 4 = 20 by rw [hihl]; rfl, getU8_drop,
    getU8_take (by dsimp only; omega), ← getU8_take (d := quote) (n := 28) (by omega), ← getU8_drop, hback,
    getU8_take hi]

/-- A payload that is sent has a transport header. -/
private theorem length_of_xlatePayload {x : PayloadCtx} {proto : Byte} {p q : Payload} (hnon : x.noninitial = false)
    (hproto : proto = 6 ∨ proto = 17) (hicmp : proto ≠ x.icmpProto) (h : xlatePayload g x proto false p = some q) :
    8 ≤ p.1.length := by
  by_contra hshort
  unfold xlatePayload at h
  rw [hnon, if_neg Bool.false_ne_true, if_neg hicmp] at h
  split at h
  · cases h
  rcases hproto with rfl | rfl
  · rw [if_neg (by decide), if_pos rfl, PayloadCtx.tcp, if_pos (show p.1.length < 20 by omega)] at h
    cases h
  · rw [if_pos rfl, PayloadCtx.udp, if_pos (show p.1.length < 8 by omega)] at h
    cases h

/-- An error that is written quotes what its own header is followed by. -/
private theorem errorPacket4to6_quote (e : Pkt4) (src dest : In6) (icmp : Icmp) (emHeader emData : List Byte) :
    (errorPacket4to6 g e src dest icmp emHeader emData).drop 48 = emHeader ++ emData ∧
    (Ip6.ofBytes (errorPacket4to6 g e src dest icmp emHeader emData)).dest = dest := by
  unfold errorPacket4to6
  dsimp only
  constructor
  · rw [List.append_assoc]
    exact List.drop_left' (by rw [List.length_append, length_ip6, length_icmp])
  · rw [List.append_assoc, List.append_assoc, Ip6.ofBytes_toBytes]
    rfl

/-- What a packet that comes from IPv6 is sent as. -/
private structure Sent4 (p : Pkt6) (packet : List Byte) : Prop where
  hproto : p.dataProto = 6 ∨ p.dataProto = 17 ∨ p.dataProto = 58
  hmin : 8 ≤ p.data.length
  hihl : (Ip4.ofBytes packet).verIhl = 0x45
  hlength : (Ip4.ofBytes packet).length.toNat = 20 + p.data.length
  hwhole : (Ip4.ofBytes packet).flagsOffset &&& (ip4FMask ||| ip4FMf) = 0
  hproto4 : (Ip4.ofBytes packet).proto = if p.dataProto = 58 then 1 else p.dataProto
  hports : portsOf p.dataProto (packet.drop 20) = portsOf p.dataProto p.data

private theorem xlateIdent6to4_whole {p : Pkt6} (hfrag : p.frag = none) (n : Nat) :
    ((xlateIdent6to4 p n).answer ans).2 &&& (ip4FMask ||| ip4FMf) = 0 := by
  unfold xlateIdent6to4
  rw [hfrag]
  dsimp only
  split
  · exact BitVec.zero_and
  · exact show ip4FDf &&& (ip4FMask ||| ip4FMf) = 0 by decide

private theorem sent4 {p : Pkt6} (hmtu : g.mtu ≤ 65535) (hgso : isGso vhdr = false)
    (hparse : parseIp6 d vhdr false = .ok p) (hquery : Queries6 p)
    (hmem : packet ∈ written ans (handleIp6 g offload d vhdr)) (hv : version packet = 4) :
    Sent4 p packet ∧ p.dataProto = p.ip6.nextHeader ∧ p.data.length = p.ip6.payloadLength.toNat ∧
    ans (.mapIp6ToIp4 p.ip6.src true) = .ok (Ip4.ofBytes packet).src ∧
    ans (.mapIp6ToIp4 p.ip6.dest false) = .ok (Ip4.ofBytes packet).dest := by
  have hext : ¬isExt p.ip6.nextHeader ∧ p.ip6.nextHeader ≠ 44 := by
    rcases hquery with h | h | ⟨h, -⟩ <;> rw [h] <;> decide
  obtain ⟨hfrag, hproto, -, hheader⟩ := parseIp6_plain hparse hext.1 hext.2
  have hprotos : p.dataProto = 6 ∨ p.dataProto = 17 ∨ p.dataProto = 58 := by
    rw [hproto]
    exact hquery.imp_right fun h => h.imp_right And.left
  have hdata : DataPacket6 p := by
    unfold DataPacket6
    rcases hquery with h | h | ⟨-, h⟩
    · exact .inl (by rw [hproto, h]; decide)
    · exact .inl (by rw [hproto, h]; decide)
    · exact .inr (.inl h)
  obtain ⟨hvalid, hfit, src, dest, hsrc, hdest, q, hq, hwritten⟩ := handleIp6_emits hgso hparse hdata hmem hv
  rw [hwritten] at hmem
  obtain rfl := List.mem_singleton.1 hmem
  obtain ⟨r, hr, rfl⟩ := Option.map_eq_some_iff.1 hq
  have hnon : (payloadCtx6to4 g p (sentHeader4 ans p src dest)).noninitial = false := by
    show (p.frag.any _) = false
    rw [hfrag]
    rfl
  have hmin : 8 ≤ p.data.length := by
    obtain ⟨hs, hwf, -⟩ := parseIp6_eq_ok hparse
    rcases hprotos with h | h | h
    · exact length_of_xlatePayload hnon (.inl h) (by rw [h]; exact show (6 : Byte) ≠ 58 by decide) hr
    · exact length_of_xlatePayload hnon (.inr h) (by rw [h]; exact show (17 : Byte) ≠ 58 by decide) hr
    · exact (hwf.hicmp h).1
  have hlength : (sentHeader4 ans p src dest).length.toNat = 20 + p.data.length := by
    unfold sentHeader4 dataHeader6to4
    rw [BitVec.toNat_ofNat, Nat.mod_eq_of_lt (by omega)]
  have hlen : p.data.length = p.ip6.payloadLength.toNat := by
    have hlen := hvalid.hlen
    rwa [hheader, Nat.zero_add] at hlen
  refine ⟨⟨hprotos, hmin, ?_, ?_, ?_, ?_, ?_⟩, hproto, hlen, ?_⟩
  · rw [Ip4.ofBytes_toBytes]
    rfl
  · rw [Ip4.ofBytes_toBytes]
    exact hlength
  · rw [Ip4.ofBytes_toBytes]
    exact xlateIdent6to4_whole hfrag _
  · rw [Ip4.ofBytes_toBytes]
    rfl
  · have hown : p.dataProto = 1 ∨ p.dataProto = 58 → p.dataProto = 58 := by
      refine fun h => h.resolve_left fun h1 => ?_
      rw [h1] at hprotos
      exact absurd hprotos (by decide)
    rw [List.drop_left' (length_ip4 _)]
    have hword : ∀ icmp, ((payloadCtx6to4 g p (sentHeader4 ans p src dest)).icmp icmp).word = icmp.word := fun _ => rfl
    have hicmp : (payloadCtx6to4 g p (sentHeader4 ans p src dest)).icmpProto = 58 := rfl
    have hports := portsOf_xlatePayload hword (.inr hicmp) (fun h => ⟨hown h, hnon⟩) hr
    exact hports
  · rw [Ip4.ofBytes_toBytes]
    exact ⟨hsrc, hdest⟩

/-- **An error about a packet from IPv6** is translated to one about that packet. -/
private theorem quote_back6 {p : Pkt6} {e : Pkt4} (hmtu : g.mtu ≤ 65535) (hgso : isGso vhdr = false)
    (hparse : parseIp6 d vhdr false = .ok p) (hquery : Queries6 p)
    (hmem : packet ∈ written ans (handleIp6 g offload d vhdr)) (hv : version packet = 4) (hquote : QuotesIp4 e packet)
    (herror : error ∈ written ans' (xlate4to6IcmpError g e)) :
    QuotedTo6 ans ans' p packet e error := by
  obtain ⟨hsent, hproto, hlen, hmapped⟩ := sent4 hmtu hgso hparse hquery hmem hv
  obtain ⟨em, icmp, src, dest, q, src', dest', hem, hsrc, hdest, hdest', hq, rfl⟩ := mem_xlate4to6IcmpError herror
  obtain ⟨⟨quote, hemData, hemParse⟩, hecho⟩ := quote4_eq_some hem
  obtain ⟨ttl, cksum, hfront⟩ := hquote quote hemData
  have hfull : 28 ≤ (Ip4.ofBytes packet).length.toNat := by
    have := hsent.hlength
    have := hsent.hmin
    omega
  obtain ⟨hip4, hheader, hbytes⟩ := quotedFront4 hemParse hsent.hihl hfull hfront
  have hp := parsed4_of_parseIp4 hemParse
  have hwhole : em.isFragment = false := by
    unfold Pkt4.isFragment
    rw [hip4]
    exact decide_eq_false (not_not.2 hsent.hwhole)
  have hemProto : em.dataProto = if p.dataProto = 58 then 1 else p.dataProto := by
    rw [hp.hproto, hip4]
    exact hsent.hproto4
  obtain ⟨hback, hto⟩ := errorPacket4to6_quote (g := g) e src' dest' icmp (emHeader4to6 em src dest) q.data
  have hemHeader : emHeader4to6 em src dest = (emIp6 em src dest).toBytes := by
    unfold emHeader4to6
    rw [hwhole]
    rfl
  rw [hemHeader] at hback hto ⊢
  rw [hip4] at hsrc hdest
  refine ⟨hmapped, ?_, ?_, ?_, fun hsender => ?_⟩
  rotate_left
  · rw [hback, Ip6.ofBytes_toBytes]
    exact ok_iff hsrc
  · rw [hback, Ip6.ofBytes_toBytes]
    exact ok_iff hdest
  · rw [hback, hto, Ip6.ofBytes_toBytes]
    rw [hsender] at hdest'
    exact Except.ok.inj (hdest'.symm.trans hsrc)
  rw [hback]
  obtain ⟨r, hr, rfl⟩ := Option.map_eq_some_iff.1 hq
  have hnon : (payloadCtx4to6 g (emCut4 em) (emIp6 em src dest)).noninitial = false := by
    rw [← Bool.not_eq_true]
    exact fun hnon => Bool.false_ne_true (hwhole.symm.trans (noninitial_isFragment (p := em) hnon))
  have hstart : ∀ i < 8, getU8 (emCut4 em).data i = getU8 (packet.drop 20) i := by
    intro i hi
    rw [← hbytes i hi]
    refine getU8_take ?_
    rw [Pkt4.fragLen, hwhole]
    exact Nat.lt_of_lt_of_le hi (by decide)
  refine ⟨?_, ?_, ?_, fun h58 => ?_⟩
  · rw [Ip6.ofBytes_toBytes, ← hproto]
    show (if em.dataProto = 1 then 58 else em.dataProto) = p.dataProto
    rw [hemProto]
    rcases hsent.hproto with h | h | h <;> rw [h] <;> rfl
  · have hlength : em.ip4.length.toNat - em.headerLen + em.fragLen = p.ip6.payloadLength.toNat := by
      rw [Pkt4.fragLen, hwhole, if_neg Bool.false_ne_true, hheader, hip4, ← hlen]
      have := hsent.hlength
      dsimp only
      omega
    rw [Ip6.ofBytes_toBytes]
    unfold emIp6 xlateHeader4to6
    dsimp only
    rw [hlength, if_neg (by have := p.ip6.payloadLength.isLt; omega), BitVec.ofNat_toNat, BitVec.setWidth_eq]
  · have hword : ∀ i, ((payloadCtx4to6 g (emCut4 em) (emIp6 em src dest)).icmp i).word = i.word := fun _ => rfl
    have hown : (payloadCtx4to6 g (emCut4 em) (emIp6 em src dest)).icmpProto = 1 := rfl
    have hkept := portsOf_xlatePayload hword (.inl hown) (fun h => ⟨h.resolve_right hp.hicmp6, hnon⟩) hr
    have hsame : portsOf em.dataProto = portsOf p.dataProto := by
      refine portsOf_proto ?_
      rw [hemProto]
      rcases hsent.hproto with h | h | h <;> rw [h] <;> decide
    rw [List.drop_left' (length_ip6 _), ← hsent.hports, ← portsOf_congr hstart, ← hsame]
    exact hkept
  · have h1 : em.dataProto = 1 := by rw [hemProto, if_pos h58]
    have htype : (emCut4 em).icmp.type = 8 := by
      have h8 : em.icmp.type = 8 := by
        by_contra hne
        exact hecho ⟨h1, hne⟩
      rw [← h8]
      exact (hstart 0 (by decide)).trans (hbytes 0 (by decide)).symm
    rw [(Ip6.getU8_toBytes _ _).2.2]
    rcases xlatePayload_front hr with ⟨hother, -⟩ | ⟨-, -, hdata⟩
    · rw [hnon] at hother
      exact (hother.resolve_left Bool.false_ne_true h1).elim
    · rw [hdata]
      show (if (emCut4 em).icmp.type = 8 then _ else _) = _
      rw [htype]
      rfl

/-! ### Errors about packets from IPv4 -/

/-- TCP, UDP or an echo request, and no fragment. -/
def Queries4 (p : Pkt4) : Prop :=
  p.isFragment = false ∧ (p.dataProto = 6 ∨ p.dataProto = 17 ∨ p.dataProto = 1 ∧ p.icmp.type = 8)

/-- What the error gives of the packet it quotes is the header of `packet`, as a router found it, and at least 8 bytes
of its data. -/
def QuotesIp6 (e : Pkt6) (packet : List Byte) : Prop :=
  ∀ quote, emData (emLen6 e.icmp) (e.data.drop 8) = some quote → ∃ hopLimit,
    quote.take 48 = { Ip6.ofBytes packet with hopLimit := hopLimit }.toBytes ++ (packet.drop 40).take 8

/-- The quoted packet is `p`, the addresses and the options aside. -/
structure AboutIp4 (p : Pkt4) (quote : List Byte) : Prop where
  hproto : (Ip4.ofBytes quote).proto = p.ip4.proto
  hihl : (Ip4.ofBytes quote).verIhl = 0x45
  hlength : (Ip4.ofBytes quote).length.toNat = 20 + (p.ip4.length.toNat - p.headerLen)
  hports : portsOf p.dataProto (quote.drop 20) = portsOf p.dataProto p.data
  hecho : p.dataProto = 1 → getU8 quote 20 = 8

/-- The same for a packet from IPv4. -/
structure QuotedTo4 (ans ans' : (op : PktOp) → op.Ans) (p : Pkt4) (packet : List Byte) (e : Pkt6) (error : List Byte) :
    Prop where
  hmapped : ans (.mapIp4ToIp6 p.ip4.src) = .ok (Ip6.ofBytes packet).src ∧
    ans (.mapIp4ToIp6 p.ip4.dest) = .ok (Ip6.ofBytes packet).dest
  habout : AboutIp4 p (error.drop 28)
  hsrc : (Ip4.ofBytes (error.drop 28)).src = p.ip4.src ↔
    ans' (.mapIp6ToIp4 (Ip6.ofBytes packet).src false) = .ok p.ip4.src
  hdest : (Ip4.ofBytes (error.drop 28)).dest = p.ip4.dest ↔
    ans' (.mapIp6ToIp4 (Ip6.ofBytes packet).dest false) = .ok p.ip4.dest
  hto : e.ip6.dest = (Ip6.ofBytes packet).src → (Ip4.ofBytes error).dest = (Ip4.ofBytes (error.drop 28)).src

/-- What a quote of a packet without extension headers is read as. -/
private theorem quotedFront6 {quote : List Byte} {em : Pkt6} {hopLimit : Byte}
    (hparse : parseIp6 quote none true = .ok em)
    (hext : ¬isExt (Ip6.ofBytes packet).nextHeader) (hfrag : (Ip6.ofBytes packet).nextHeader ≠ 44)
    (hlen : 8 ≤ (Ip6.ofBytes packet).payloadLength.toNat)
    (hquote : quote.take 48 = { Ip6.ofBytes packet with hopLimit := hopLimit }.toBytes ++ (packet.drop 40).take 8) :
    em.ip6 = { Ip6.ofBytes packet with hopLimit := hopLimit } ∧ em.headerLen = 0 ∧ em.frag = none ∧
    em.dataProto = (Ip6.ofBytes packet).nextHeader ∧ ∀ i < 8, getU8 em.data i = getU8 (packet.drop 40) i := by
  have hip6 : Ip6.ofBytes quote = { Ip6.ofBytes packet with hopLimit := hopLimit } := by
    rw [← List.take_append_drop 48 quote, hquote, List.append_assoc]
    exact Ip6.ofBytes_toBytes _ _
  have hem : em.ip6 = { Ip6.ofBytes packet with hopLimit := hopLimit } := by
    obtain ⟨-, -, -, h, -⟩ := parseIp6_eq_ok hparse
    exact h.trans hip6
  obtain ⟨hnone, hproto, hdata, hheader⟩ := parseIp6_plain hparse (by rw [hem]; exact hext) (by rw [hem]; exact hfrag)
  refine ⟨hem, hheader, hnone, by rw [hproto, hem], fun i hi => ?_⟩
  have hback : (quote.take 48).drop 40 = (packet.drop 40).take 8 := by
    rw [hquote]
    exact List.drop_left' (length_ip6 _)
  rw [hdata, ip6Data, hip6, getU8_take (by dsimp only; omega), getU8_drop,
    ← getU8_take (d := quote) (n := 48) (by omega), ← getU8_drop, hback, getU8_take hi]

/-- What a packet that comes from IPv4 is sent as, in one piece. -/
private structure Sent6 (p : Pkt4) (packet : List Byte) : Prop where
  hproto : p.dataProto = 6 ∨ p.dataProto = 17 ∨ p.dataProto = 1
  hmin : 8 ≤ p.data.length
  hlen : p.headerLen + p.data.length = p.ip4.length.toNat
  hlength : (Ip6.ofBytes packet).payloadLength.toNat = p.data.length
  hnext : (Ip6.ofBytes packet).nextHeader = if p.dataProto = 1 then 58 else p.dataProto
  hports : portsOf p.dataProto (packet.drop 40) = portsOf p.dataProto p.data

/-- Every fragment has a fragment header. -/
private theorem fragmentLoop_next {ip6 : Ip6} {frag : Ip6Frag} {mf : Bool} (hnext : ip6.nextHeader = 44) (n : Nat)
    (off : BitVec 16) (fragSize : Nat) (data : List Byte) :
    OnlyWrites (fun packet => (Ip6.ofBytes packet).nextHeader = 44) (fragmentLoop ip6 frag mf n off fragSize data) := by
  induction n generalizing off fragSize data with
  | zero => trivial
  | succ n ih =>
    unfold fragmentLoop
    dsimp only
    refine OnlyWrites.ite (fun _ => .done _) fun _ => ⟨hnext, fun ret => ?_⟩
    exact OnlyWrites.ite (fun _ => .done _) fun _ => ih _ _ _

private theorem xlate4to6Emit_next {p : Pkt4} (src dest : In6) (n : Nat) :
    OnlyWrites (fun packet => (Ip6.ofBytes packet).nextHeader = 44) (xlate4to6Emit g p src dest n false) := by
  unfold xlate4to6Emit
  dsimp only
  split
  · exact .statsDrop _
  · rw [if_neg Bool.false_ne_true]
    exact fragmentLoop_next rfl _ _ _ _

private theorem sent6 {p : Pkt4} (hgso : isGso vhdr = false) (hparse : parseIp4 d vhdr false = .ok p)
    (hquery : Queries4 p) (hmem : packet ∈ written ans (handleIp4 g offload d vhdr)) (hv : version packet = 6)
    (hwhole : (Ip6.ofBytes packet).nextHeader ≠ 44) : Sent6 p packet ∧
    ans (.mapIp4ToIp6 p.ip4.src) = .ok (Ip6.ofBytes packet).src ∧
    ans (.mapIp4ToIp6 p.ip4.dest) = .ok (Ip6.ofBytes packet).dest := by
  have hp := parsed4_of_parseIp4 hparse
  have hprotos : p.dataProto = 6 ∨ p.dataProto = 17 ∨ p.dataProto = 1 :=
    hquery.2.imp_right fun h => h.imp_right And.left
  have hdata : DataPacket4 p := by
    rcases hquery.2 with h | h | ⟨-, h⟩
    · exact .inl (by rw [h]; decide)
    · exact .inl (by rw [h]; decide)
    · exact .inr (.inl h)
  obtain ⟨hvalid, src, dest, noFragHdr, t, hsrc, hdest, -, -, hemit, hout, -⟩ :=
    handleIp4_emits hgso hparse hdata hmem hv
  rw [← hout] at hmem
  cases noFragHdr with
  | false => exact absurd ((xlate4to6Emit_next _ _ _).mem_outputs hemit hmem) hwhole
  | true =>
    rcases xlate4to6Emit_whole hemit with ⟨-, hnone⟩ | ⟨q, hq, hone⟩
    · rw [hnone] at hmem
      cases hmem
    rw [hone] at hmem
    obtain rfl := List.mem_singleton.1 hmem
    obtain ⟨r, hr, rfl⟩ := Option.map_eq_some_iff.1 hq
    have hnon : (payloadCtx4to6 g p (dataHeader4to6 p src dest)).noninitial = false := by
      rw [← Bool.not_eq_true]
      exact fun hnon => Bool.false_ne_true (hquery.1.symm.trans (noninitial_isFragment hnon))
    have hicmp : (payloadCtx4to6 g p (dataHeader4to6 p src dest)).icmpProto = 1 := rfl
    have hmin : 8 ≤ p.data.length := by
      rcases hprotos with h | h | h
      · exact length_of_xlatePayload hnon (.inl h) (by rw [h, hicmp]; decide) hr
      · exact length_of_xlatePayload hnon (.inr h) (by rw [h, hicmp]; decide) hr
      · exact (hp.hicmp h).1
    have hlength : (dataHeader4to6 p src dest).payloadLength.toNat = p.data.length := by
      have := hvalid.hlen
      have := p.ip4.length.isLt
      unfold dataHeader4to6 xlateHeader4to6
      dsimp only
      rw [BitVec.toNat_ofNat, Nat.mod_eq_of_lt (by omega)]
    refine ⟨⟨hprotos, hmin, hvalid.hlen, ?_, ?_, ?_⟩, ?_⟩
    · rw [Ip6.ofBytes_toBytes]
      exact hlength
    · rw [Ip6.ofBytes_toBytes]
      rfl
    · have hword : ∀ i, ((payloadCtx4to6 g p (dataHeader4to6 p src dest)).icmp i).word = i.word := fun _ => rfl
      have hports := portsOf_xlatePayload hword (.inl hicmp) (fun h => ⟨h.resolve_right hp.hicmp6, hnon⟩) hr
      rw [List.drop_left' (length_ip6 _)]
      exact hports
    · rw [Ip6.ofBytes_toBytes]
      exact ⟨hsrc, hdest⟩

private theorem errorPacket6to4_quote (ip4 : Ip4) (icmp : Icmp) (emHeader emData : List Byte) :
    (errorPacket6to4 g ip4 icmp emHeader emData).drop 28 = emHeader ++ emData ∧
    (Ip4.ofBytes (errorPacket6to4 g ip4 icmp emHeader emData)).dest = ip4.dest := by
  unfold errorPacket6to4
  dsimp only
  constructor
  · rw [List.append_assoc]
    exact List.drop_left' (by rw [List.length_append, length_ip4, length_icmp])
  · rw [List.append_assoc, List.append_assoc, Ip4.ofBytes_toBytes]
    rfl

/-- **An error about a packet from IPv4** is translated to one about that packet. -/
private theorem quote_back4 {p : Pkt4} {e : Pkt6} (hgso : isGso vhdr = false)
    (hparse : parseIp4 d vhdr false = .ok p) (hquery : Queries4 p)
    (hmem : packet ∈ written ans (handleIp4 g offload d vhdr)) (hv : version packet = 6)
    (hwhole : (Ip6.ofBytes packet).nextHeader ≠ 44) (hquote : QuotesIp6 e packet)
    (herror : error ∈ written ans' (xlate6to4IcmpError g e)) :
    QuotedTo4 ans ans' p packet e error := by
  have hp := parsed4_of_parseIp4 hparse
  obtain ⟨hsent, hmapped⟩ := sent6 hgso hparse hquery hmem hv hwhole
  obtain ⟨em, icmp, src, dest, emIp4, q, ip4, dest', hem, hsrc, hdest, hdest', hemSrc, hemDest, hheader, hto, hq,
    rfl⟩ := mem_xlate6to4IcmpError herror
  obtain ⟨⟨quote, hemData, hemParse⟩, hecho⟩ := quote6_eq_some hem
  obtain ⟨hopLimit, hfront⟩ := hquote quote hemData
  have hext : ¬isExt (Ip6.ofBytes packet).nextHeader := by
    rw [hsent.hnext]
    rcases hsent.hproto with h | h | h <;> rw [h] <;> decide
  obtain ⟨hip6, hlen, hfrag, hemProto, hbytes⟩ :=
    quotedFront6 hemParse hext hwhole (by rw [hsent.hlength]; exact hsent.hmin) hfront
  obtain ⟨hback, hto'⟩ := errorPacket6to4_quote (g := g) ip4 icmp
    { emIp4 with cksum := htons g.endian (ipChecksum g.endian emIp4.toBytes) }.toBytes q.data
  rw [hip6, ← hemSrc] at hsrc
  rw [hip6, ← hemDest] at hdest
  refine ⟨hmapped, ?_, ?_, ?_, fun hsender => ?_⟩
  rotate_left
  · rw [hback, Ip4.ofBytes_toBytes]
    exact ok_iff hsrc
  · rw [hback, Ip4.ofBytes_toBytes]
    exact ok_iff hdest
  · rw [hback, hto', hto, Ip4.ofBytes_toBytes]
    rw [hsender] at hdest'
    exact Except.ok.inj (hdest'.symm.trans hsrc)
  rw [hback]
  obtain ⟨r, hr, rfl⟩ := Option.map_eq_some_iff.1 hq
  have hicmp : (payloadCtx6to4 g (emCut6 em) emIp4).icmpProto = 58 := rfl
  have hnon : (payloadCtx6to4 g (emCut6 em) emIp4).noninitial = false := by
    show (em.frag.any _) = false
    rw [hfrag]
    rfl
  have hstart : ∀ i < 8, getU8 (emCut6 em).data i = getU8 (packet.drop 40) i := by
    intro i hi
    rw [← hbytes i hi]
    exact getU8_take (Nat.lt_of_lt_of_le hi (by decide))
  have hown : em.dataProto = 58 ↔ p.dataProto = 1 := by
    rw [hemProto, hsent.hnext]
    rcases hsent.hproto with h | h | h <;> rw [h] <;> decide
  have h1 : em.dataProto ≠ 1 := by
    rw [hemProto, hsent.hnext]
    rcases hsent.hproto with h | h | h <;> rw [h] <;> decide
  refine ⟨?_, ?_, ?_, ?_, fun hone => ?_⟩
  · rw [Ip4.ofBytes_toBytes, hheader.hproto, ← hp.hproto, hemProto, hsent.hnext]
    rcases hsent.hproto with h | h | h <;> rw [h] <;> rfl
  · rw [Ip4.ofBytes_toBytes]
    exact hheader.hverIhl
  · rw [Ip4.ofBytes_toBytes]
    have hlength : emLength6to4 em = p.data.length := by
      rw [emLength6to4, hip6, hlen, ← hsent.hlength]
      rfl
    have hin := hsent.hlen
    have hmin := hp.hmin
    have hmax := p.ip4.length.isLt
    show emIp4.length.toNat = _
    rw [hheader.hlength, hlength, BitVec.toNat_ofNat, Nat.mod_eq_of_lt (by omega)]
    omega
  · have hword : ∀ i, ((payloadCtx6to4 g (emCut6 em) emIp4).icmp i).word = i.word := fun _ => rfl
    have hkept := portsOf_xlatePayload hword (.inr hicmp) (fun h => ⟨h.resolve_left h1, hnon⟩) hr
    have hsame : portsOf em.dataProto = portsOf p.dataProto := by
      exact portsOf_proto (by rw [or_iff_right h1, hown, or_iff_left hp.hicmp6])
    rw [List.drop_left' (length_ip4 _), ← hsent.hports, ← portsOf_congr hstart, ← hsame]
    exact hkept
  · have h58 : em.dataProto = 58 := hown.2 hone
    have htype : (emCut6 em).icmp.type = 128 := by
      have h128 : em.icmp.type = 128 := by
        by_contra hne
        exact hecho ⟨h58, hne⟩
      rw [← h128]
      exact (hstart 0 (by decide)).trans (hbytes 0 (by decide)).symm
    show getU8 r.1 0 = 8
    rcases xlatePayload_front hr with ⟨hother, -⟩ | ⟨-, -, hdata⟩
    · rw [hnon] at hother
      exact (hother.resolve_left Bool.false_ne_true h58).elim
    · rw [hdata]
      show (if (emCut6 em).icmp.type = 128 then _ else _) = _
      rw [htype]
      rfl

/-- **Quotes there and back.**  An ICMP error about a packet that the translator sent, quoting its header and at least 8
bytes of its data, comes out as one about the packet that was received, if it is translated: with its protocol, its
length and its ports, and with its addresses exactly if the mapper leads those of the quoted packet back to them. -/
theorem quotes_back (g : Gcfg) (hmtu : g.mtu ≤ 65535) (ans ans' : (op : PktOp) → op.Ans) (offload : Bool)
    (d : List Byte) (vhdr : Option VnetHdr) (hgso : isGso vhdr = false) (packet error : List Byte) :
    (∀ p e, parseIp6 d vhdr false = .ok p → Queries6 p → packet ∈ written ans (handleIp6 g offload d vhdr) →
      version packet = 4 → QuotesIp4 e packet → error ∈ written ans' (xlate4to6IcmpError g e) →
      QuotedTo6 ans ans' p packet e error) ∧
    ∀ p e, parseIp4 d vhdr false = .ok p → Queries4 p → packet ∈ written ans (handleIp4 g offload d vhdr) →
      version packet = 6 → (Ip6.ofBytes packet).nextHeader ≠ 44 → QuotesIp6 e packet →
      error ∈ written ans' (xlate6to4IcmpError g e) → QuotedTo4 ans ans' p packet e error :=
  ⟨fun _ _ hparse hquery hmem hv hquote herror => quote_back6 hmtu hgso hparse hquery hmem hv hquote herror,
    fun _ _ hparse hquery hmem hv hwhole hquote herror => quote_back4 hgso hparse hquery hmem hv hwhole hquote herror⟩

/-- A Time Exceeded from a router at 203.0.113.9 that quotes 8 bytes of data. -/
def exceeded4 (packet : List Byte) : Pkt4 :=
  let cksum := htons .little (ipChecksum .little ((Icmp.mk 11 0 0 0).toBytes ++ packet.take 28))
  ⟨((Ip4.mk 0x45 0 56 0 0 64 1 0 0xcb007109 (Ip4.ofBytes packet).src).withCksum .little).toBytes,
    (Icmp.mk 11 0 cksum 0).toBytes ++ packet.take 28, 1, none⟩

private theorem exceeded4_quotes
    (h : packet.take 28 = (Ip4.ofBytes packet).toBytes ++ (packet.drop 20).take 8) :
    QuotesIp4 (exceeded4 packet) packet := by
  have hdata : emData (emLen4 (exceeded4 packet).icmp) ((exceeded4 packet).data.drop 8) = some (packet.take 28) := by
    have hlen : emLen4 (exceeded4 packet).icmp = 0 := by
      unfold Pkt4.icmp exceeded4
      rw [Icmp.ofBytes_toBytes, emLen4, if_pos (.inr (.inl rfl))]
      exact show ((0 : BitVec 32) >>> 14 &&& 0x3fc).toNat = 0 by decide
    rw [emData, if_pos hlen]
    rfl
  intro quote hquote
  rw [hdata] at hquote
  cases hquote
  exact ⟨(Ip4.ofBytes packet).ttl, (Ip4.ofBytes packet).cksum, by rw [List.take_take]; exact h⟩

/-- The same from a router at 64:ff9b::cb00:7109. -/
def exceeded6 (packet : List Byte) : Pkt6 :=
  let ip6 : Ip6 := ⟨0x60000000, 56, 58, 64, 0x0064ff9b0000000000000000cb007109, (Ip6.ofBytes packet).src⟩
  let cksum := htons .little (onesAdd (ipChecksum .little ((Icmp.mk 3 0 0 0).toBytes ++ packet.take 48))
    (ip6Checksum .little ip6 56 58))
  ⟨ip6.toBytes, none, (Icmp.mk 3 0 cksum 0).toBytes ++ packet.take 48, 58, none⟩

private theorem exceeded6_quotes
    (h : packet.take 48 = (Ip6.ofBytes packet).toBytes ++ (packet.drop 40).take 8) :
    QuotesIp6 (exceeded6 packet) packet := by
  have hdata : emData (emLen6 (exceeded6 packet).icmp) ((exceeded6 packet).data.drop 8) = some (packet.take 48) := by
    have hlen : emLen6 (exceeded6 packet).icmp = 0 := by
      unfold Pkt6.icmp exceeded6
      rw [Icmp.ofBytes_toBytes, emLen6, if_pos (.inr rfl)]
      exact show ((0 : BitVec 32) >>> 21 &&& 0x7f8).toNat = 0 by decide
    rw [emData, if_pos hlen]
    rfl
  intro quote hquote
  rw [hdata] at hquote
  cases hquote
  exact ⟨(Ip6.ofBytes packet).hopLimit, by rw [List.take_take]; exact h⟩

/-- An echo request from IPv6. -/
def echoRequest6 : List Byte :=
  (Ip6.mk 0x60000000 8 58 64 0x0064ff9b0000000000000000c0000205 0x0064ff9b0000000000000000c6336407).toBytes ++
    (Icmp.mk 128 0 37754 0x00010001).toBytes

/-- A datagram from IPv4. -/
def datagram4 : List Byte :=
  ((Ip4.mk 0x45 0 36 0xbeef 0x4000 64 17 0 0xc0000205 0xc6336407).withCksum .little).toBytes ++
    (UdpHdr.mk 12345 53 16 0x1234).toBytes ++ List.replicate 8 0x61

theorem quotes_back_sample :
    (∃ p packet error, parseIp6 echoRequest6 none false = .ok p ∧
      written frameAns (xlate4to6IcmpError sampleGcfg (exceeded4 packet)) = [error] ∧
      QuotedTo6 frameAns frameAns p packet (exceeded4 packet) error) ∧
    ∃ p packet error, parseIp4 datagram4 none false = .ok p ∧
      written frameAns (xlate6to4IcmpError sampleGcfg (exceeded6 packet)) = [error] ∧
      QuotedTo4 frameAns frameAns p packet (exceeded6 packet) error := by
  have h := quotes_back sampleGcfg (by decide) frameAns frameAns false
  constructor
  · obtain ⟨packet, hpacket⟩ :
        ∃ packet, packet = (written frameAns (handleIp6 sampleGcfg false echoRequest6 none)).headD [] := ⟨_, rfl⟩
    obtain ⟨error, herror⟩ :
        ∃ error, error = (written frameAns (xlate4to6IcmpError sampleGcfg (exceeded4 packet))).headD [] := ⟨_, rfl⟩
    have hone : written frameAns (xlate4to6IcmpError sampleGcfg (exceeded4 packet)) = [error] := by
      subst hpacket herror
      decide +kernel
    refine ⟨⟨echoRequest6.take 40, none, echoRequest6.drop 40, 58, none⟩, packet, error, by decide +kernel, hone, ?_⟩
    exact (h echoRequest6 none rfl packet error).1 _ _ (by decide +kernel) (.inr (.inr (by decide)))
      (by subst hpacket; decide +kernel) (by subst hpacket; decide +kernel)
      (exceeded4_quotes (by subst hpacket; decide +kernel)) (by rw [hone]; exact List.mem_singleton_self _)
  · obtain ⟨packet, hpacket⟩ :
        ∃ packet, packet = (written frameAns (handleIp4 sampleGcfg false datagram4 none)).headD [] := ⟨_, rfl⟩
    obtain ⟨error, herror⟩ :
        ∃ error, error = (written frameAns (xlate6to4IcmpError sampleGcfg (exceeded6 packet))).headD [] := ⟨_, rfl⟩
    have hone : written frameAns (xlate6to4IcmpError sampleGcfg (exceeded6 packet)) = [error] := by
      subst hpacket herror
      decide +kernel
    refine ⟨⟨datagram4.take 20, datagram4.drop 20, 17, none⟩, packet, error, by decide +kernel, hone, ?_⟩
    exact (h datagram4 none rfl packet error).2 _ _ (by decide +kernel) ⟨by decide +kernel, .inr (.inl rfl)⟩
      (by subst hpacket; decide +kernel) (by subst hpacket; decide +kernel) (by subst hpacket; decide +kernel)
      (exceeded6_quotes (by subst hpacket; decide +kernel)) (by rw [hone]; exact List.mem_singleton_self _)

/-- A subnet map, under which the last 8 bits of an IPv6 address are discarded. -/
def subnetStart : Except Error Gcfg := startWith "map 198.18.0.0/16 2001:db8:2::/104\n"

/-- A TCP segment from 2001:db8:2::501 to 198.51.100.7. -/
def subnetSegment : List Byte :=
  (Ip6.mk 0x60000000 20 6 64 0x20010db8000200000000000000000501 0x20010db80001000000000000c6336407).toBytes ++
    (TcpHdr.mk 12345 80 1 0 0x50 2 1024 0xf0a7 0 []).toBytes

/-- What becomes of it. -/
def subnetOut : List Byte :=
  ((Ip4.mk 0x45 0 40 0xb00b 0 63 6 0 0xc6120005 0xc6336407).withCksum .little).toBytes ++
    (TcpHdr.mk 12345 80 1 0 0x50 2 1024 0x8b06 0 []).toBytes

/-- The error quotes 2001:db8:2::500 as the source. -/
theorem not_quotesBack_subnet : ∃ g p error, subnetStart.map ({ · with mtu := 1500 }) = .ok g ∧
    parseIp6 subnetSegment none false = .ok p ∧ Queries6 p ∧
    written (mapperAns g) (handleIp6 g false subnetSegment none) = [subnetOut] ∧ version subnetOut = 4 ∧
    QuotesIp4 (exceeded4 subnetOut) subnetOut ∧
    written (mapperAns g) (xlate4to6IcmpError g (exceeded4 subnetOut)) = [error] ∧
    (Ip6.ofBytes (error.drop 48)).src ≠ p.ip6.src := by
  obtain ⟨g, hg, hout, herror⟩ := start_any (r := subnetStart.map ({ · with mtu := 1500 }))
    (p := fun g => written (mapperAns g) (handleIp6 g false subnetSegment none) = [subnetOut] ∧
      (written (mapperAns g) (xlate4to6IcmpError g (exceeded4 subnetOut))).map (fun error =>
        (Ip6.ofBytes (error.drop 48)).src) = [0x20010db8000200000000000000000500])
    (by decide +kernel)
  obtain ⟨error, hone, hsrc⟩ := List.map_eq_singleton_iff.1 herror
  refine ⟨g, ⟨subnetSegment.take 40, none, subnetSegment.drop 40, 6, none⟩, error, hg, by decide +kernel,
    .inl (by decide +kernel), hout, by decide +kernel, exceeded4_quotes (by decide +kernel), hone, ?_⟩
  rw [hsrc]
  decide +kernel

end Tayga
