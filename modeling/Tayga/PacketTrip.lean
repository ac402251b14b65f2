import Tayga.PayloadTrip
import Tayga.Translated

/-!
# Packets there and back

What `handle_ip6` makes of the one packet that `handle_ip4` made of an IPv4 packet, if the mapper leads the two
addresses back: the packet it was, but for what two routers change, unless an IPv6 address is reserved or the
destination is the translator itself (`scalar_round_trip`).
-/

namespace Tayga

open Program

variable {g : Gcfg} {ans : (op : PktOp) → op.Ans} {d : List Byte} {vhdr : Option VnetHdr} {offload : Bool} {p : Pkt4}
variable {src dest : In6}

/-! ### The way there -/

/-- The fragment header of a fragment that is sent in one piece. -/
def sentFrag (p : Pkt4) (src dest : In6) : Option Ip6Frag :=
  if p.isFragment then
    let off := (p.ip4.flagsOffset &&& ip4FMask) * 8
    some { fragHeader4to6 p src dest with
      offsetFlags := if p.ip4.flagsOffset &&& ip4FMf ≠ 0 then off ||| ip6FMf else off }
  else none

/-- The header of a packet that is sent in one piece. -/
def sentHeader (p : Pkt4) (src dest : In6) : Ip6 :=
  if p.isFragment then { dataHeader4to6 p src dest with
    nextHeader := 44
    payloadLength := BitVec.ofNat 16 (8 + p.data.length) }
  else dataHeader4to6 p src dest

private theorem fragmentsOf_single {ip6 : Ip6} {frag : Ip6Frag} {mf : Bool} {off : BitVec 16} {size : Nat}
    {data packet : List Byte} (hs : 0 < size) (h : fragmentsOf ip6 frag mf off size 0 data = [packet]) :
    data.length ≤ size ∧ packet = fragmentOf ip6 frag mf off ⟨0, data, true⟩ := by
  unfold fragmentsOf at h
  split at h
  · cases h
  by_cases hle : data.length ≤ size
  · rw [Cut.cut_of_le 0 hle] at h
    exact ⟨hle, (List.singleton_inj.1 h).symm⟩
  · rw [Cut.cut_of_lt hs 0 (Nat.not_le.1 hle), List.map_cons, List.cons.injEq, List.map_eq_nil_iff] at h
    exact absurd h.2 (Cut.cut_ne_nil _ _ _)

/-- **The one packet that is written**, if the payload keeps its virtio header. -/
private theorem handleIp4_single {packet : List Byte} (hgso : isGso vhdr = false)
    (hparse : parseIp4 d vhdr false = .ok p) (hdata : DataPacket4 p) (hans : Delivers ans)
    (hmtu : mtuMin ≤ g.mtu) (hofflink : mtuMin ≤ g.ipv6OfflinkMtu)
    (hone : written ans (handleIp4 g offload d vhdr) = [packet]) (hv : version packet = 6)
    (hdest : ans (.mapIp4ToIp6 p.ip4.dest) = .ok dest) (hsrc : ans (.mapIp4ToIp6 p.ip4.src) = .ok src)
    (hfull : ∀ q, xlatePayload4to6 g p (dataHeader4to6 p src dest) false = some q → needsCsum q.vhdr = false) :
    Valid4 g p ∧ 40 + p.data.length ≤ g.mtu ∧ ∃ q, xlatePayload4to6 g p (dataHeader4to6 p src dest) false = some q ∧
      packet = packet6 (sentHeader p src dest) (sentFrag p src dest) q.data := by
  have hp := parsed4_of_parseIp4 hparse
  have hlimit := limit6_ge hmtu hofflink
  have hle : limit6 g ≤ g.mtu := limit6_le
  obtain ⟨hvalid, src', dest', noFragHdr, t, hsrc', hdest', hpath, hfit, hemit, houtputs, ht⟩ :=
    handleIp4_emits hgso hparse hdata (by rw [hone]; exact List.mem_cons_self) hv
  cases hdest'.symm.trans hdest
  cases hsrc'.symm.trans hsrc
  rw [hone] at houtputs
  refine ⟨hvalid, ?_⟩
  cases noFragHdr with
  | true =>
    have hwhole : ¬FragmentPath g p := fun h => Bool.false_ne_true (hpath.2 h).symm
    have hnot : p.isFragment = false := by
      rw [← Bool.not_eq_true]
      exact fun h => hwhole (.inl h)
    rcases xlate4to6Emit_whole hemit with ⟨-, hnil⟩ | ⟨q, hq, hout⟩
    · rw [hnil] at houtputs
      cases houtputs
    have hfit := hfit rfl
    have hmin : 1280 ≤ g.mtu := hmtu
    refine ⟨by omega, q, hq, ?_⟩
    unfold sentHeader sentFrag
    rw [hnot, if_neg Bool.false_ne_true, if_neg Bool.false_ne_true]
    exact (List.singleton_inj.1 (hout.symm.trans houtputs)).symm
  | false =>
    rcases xlate4to6Emit_fragments (by omega) (hans.allSent ht) hemit with ⟨-, hnil⟩ | ⟨q, hq, hout⟩
    · rw [hnil] at houtputs
      cases houtputs
    have hcomplete : completeCsum g q (dataHeader4to6 p src dest) = q.data := by
      unfold completeCsum
      rw [hfull q hq, if_neg Bool.false_ne_true]
    have hlen := length_payload4to6 hp hq
    rw [hcomplete] at hout
    obtain ⟨hsize, hpacket⟩ := fragmentsOf_single (by omega) (hout.symm.trans houtputs)
    -- a packet that is cut because of its size has two pieces at least
    have hfragment : p.isFragment = true := (hpath.1 rfl).resolve_right fun h => by omega
    refine ⟨by omega, q, hq, ?_⟩
    unfold sentHeader sentFrag
    rw [hfragment, if_pos rfl, if_pos rfl, hpacket]
    unfold fragmentOf
    dsimp only
    rw [BitVec.add_zero, hlen]
    by_cases hmf : p.ip4.flagsOffset &&& ip4FMf ≠ 0
    · rw [if_pos (.inr (decide_eq_true hmf)), if_pos hmf]
      rfl
    · rw [if_neg (by simpa using hmf), if_neg hmf]
      rfl

/-! ### What is sent is taken apart -/

/-- What `parse_ip4` has seen to in a packet it accepts. -/
private theorem parseIp4_accepted (hparse : parseIp4 d vhdr false = .ok p) :
    p.dataProto ∉ ([0, 43, 44, 58, 60] : List Byte) ∧
    (p.ip4.flagsOffset &&& ip4FMf ≠ 0 → p.data.length % 8 = 0) ∧ p.ip4.verIhl >>> 4 = 4 := by
  have hp := parsed4_of_parseIp4 hparse
  rw [hp.hip4]
  unfold parseIp4 at hparse
  dsimp only at hparse
  split at hparse
  · cases hparse
  split at hparse
  · cases hparse
  next hlen hvalid =>
  rw [not_or, not_not] at hvalid
  split at hparse
  · next hicmp =>
    split at hparse
    · cases hparse
    next hwhole =>
    split at hparse
    · cases hparse
    obtain rfl := Except.ok.inj hparse
    refine ⟨?_, fun hmf => ?_, hvalid.1⟩
    · dsimp only at hicmp ⊢
      rw [hicmp]
      decide
    · have hzero : (Ip4.ofBytes d).flagsOffset &&& (ip4FMf ||| ip4FMask) = 0 := by
        rw [BitVec.or_comm]
        simpa using hwhole
      exact absurd (and_eq_zero_of_and_or hzero) hmf
  split at hparse
  · cases hparse
  next hproto =>
  split at hparse
  · cases hparse
  next haligned =>
  split at hparse
  · cases hparse
  obtain rfl := Except.ok.inj hparse
  refine ⟨?_, fun hmf => ?_, hvalid.1⟩
  · simpa using hproto
  · by_contra hmod
    exact haligned ⟨rfl, hmf, hmod⟩

/-- The bits of an offset in the two formats. -/
private theorem offset_bits (f : BitVec 16) : ((f &&& ip4FMask) * 8).toNat = (f &&& ip4FMask).toNat * 8 ∧
    ((f &&& ip4FMask) * 8) >>> 3 = f &&& ip4FMask ∧ ((f &&& ip4FMask) * 8 ||| ip6FMf) >>> 3 = f &&& ip4FMask := by
  have hle : (f &&& ip4FMask).toNat ≤ 8191 := by
    rw [BitVec.toNat_and]
    exact Nat.and_le_right
  have hmul : ((f &&& ip4FMask) * 8).toNat = (f &&& ip4FMask).toNat * 8 := by
    rw [BitVec.toNat_mul]
    exact Nat.mod_eq_of_lt (show (f &&& ip4FMask).toNat * 8 < 2 ^ 16 by omega)
  have hshift : ((f &&& ip4FMask) * 8) >>> 3 = f &&& ip4FMask := by
    apply BitVec.eq_of_toNat_eq
    rw [BitVec.toNat_ushiftRight, hmul, Nat.shiftRight_eq_div_pow]
    omega
  refine ⟨hmul, hshift, ?_⟩
  rw [BitVec.ushiftRight_or_distrib, hshift, show ip6FMf >>> 3 = 0 by decide]
  exact BitVec.or_zero

/-- What `xlate_4to6_data` sends fits together. -/
private theorem sent_fitting (hparse : parseIp4 d vhdr false = .ok p) (hlen : p.data.length ≤ 65515) {data : List Byte}
    (hdata : data.length = p.data.length) : Fitting (sentHeader p src dest) (sentFrag p src dest)
      (if p.dataProto = 1 then 58 else p.dataProto) data := by
  have hp := parsed4_of_parseIp4 hparse
  obtain ⟨hproto, haligned, -⟩ := parseIp4_accepted hparse
  have hoffset := parseIp4_offset hparse
  have hversion : ∀ tc, verTc tc >>> 28 = 6 := by decide +kernel
  obtain ⟨hmul, -⟩ := offset_bits p.ip4.flagsOffset
  have h8 : 8 ∣ ((p.ip4.flagsOffset &&& ip4FMask) * 8).toNat := by
    rw [hmul]
    exact Nat.dvd_mul_left 8 _
  obtain ⟨hmask, hflag, hmask', -⟩ := offset_flags _ h8
  refine ⟨?_, ?_, ?_, ?_, fun f hf => ?_, fun h58 => ?_⟩
  · unfold sentHeader
    split <;> exact hversion _
  · unfold sentHeader sentFrag
    rw [List.length_append, length_fragBytes, hdata]
    split
    · exact Nat.mod_eq_of_lt (show 8 + p.data.length < 2 ^ 16 by omega)
    · exact (Nat.mod_eq_of_lt (show p.data.length < 2 ^ 16 by omega)).trans (Nat.zero_add _).symm
  · unfold sentHeader sentFrag
    split <;> rfl
  · simp only [List.mem_cons, List.not_mem_nil, or_false, not_or] at hproto ⊢
    split
    · decide
    · next h1 => exact ⟨hproto.1, h1, hproto.2.1, hproto.2.2.1, hproto.2.2.2.2⟩
  · unfold sentFrag at hf
    split at hf
    · obtain rfl := Option.some.inj hf
      refine ⟨rfl, fun hmf => ?_, ?_⟩
      · rw [hdata]
        refine haligned fun hzero => hmf ?_
        dsimp only
        rw [if_neg (not_not.2 hzero), hflag]
      · dsimp only
        unfold Pkt4.offset at hoffset
        split
        · rw [hmask', hmul, hdata]
          exact hoffset
        · rw [hmask, hmul, hdata]
          exact hoffset
    · cases hf
  · have h1 : p.dataProto = 1 := by
      by_contra h1
      rw [if_neg h1] at h58
      exact hp.hicmp6 h58
    obtain ⟨hmin, hwhole⟩ := hp.hicmp h1
    unfold sentFrag
    rw [hwhole rfl, if_neg Bool.false_ne_true, hdata]
    exact ⟨rfl, hmin⟩

/-! ### The way back -/

section Back

variable {h : Ip6} {frag : Option Ip6Frag} {proto : Byte} {data : List Byte}

/-- **A built packet that is accepted** goes to the end of `xlate_6to4_data`. -/
private theorem handleIp6_emit {src dest : In4} (hgso : isGso vhdr = false) (hfit : Fitting h frag proto data)
    (hsrc : validateIp6Addr h.src = none) (hdest : validateIp6Addr h.dest = none) (hself : h.dest ≠ g.localAddr6)
    (hhops : 2 ≤ h.hopLimit.toNat) (hmtu : 40 + data.length ≤ g.mtu)
    (hicmp : proto = 58 → onesAdd (ipChecksum g.endian data)
      (ip6Checksum g.endian h (BitVec.ofNat 32 data.length) 58) = 0)
    (hdata : proto ≠ 58 ∨ (Icmp.ofBytes data).type = 128 ∨ (Icmp.ofBytes data).type = 129)
    (hmapDest : ans (.mapIp6ToIp4 h.dest false) = .ok dest) (hmapSrc : ans (.mapIp6ToIp4 h.src true) = .ok src) :
    ∃ q : Pkt6, q.ip6 = h ∧ q.frag = frag ∧ q.dataProto = proto ∧ q.data = data ∧ q.vhdr = vhdr ∧
    q.headerLen + data.length = q.ip6.payloadLength.toNat ∧
    written ans (handleIp6 g offload (packet6 h frag data) vhdr) = written ans (xlate6to4Emit g q src dest) := by
  obtain ⟨q, hparse, hip6, hfrag, hproto, hqdata, hvhdr, hlen⟩ := parseIp6_packet6 vhdr hfit hsrc hdest
  have hvalid : Valid6 g q := by
    refine ⟨?_, by rw [hqdata, hip6]; exact hlen, by rw [hproto, hqdata, hip6]; exact hicmp⟩
    rw [hip6]
    intro hzero
    rw [hzero] at hhops
    exact absurd hhops (by decide)
  have hone : q.ip6.hopLimit ≠ 1 := by
    rw [hip6]
    intro hone
    rw [hone] at hhops
    exact absurd hhops (by decide)
  have hpacket : DataPacket6 q := by
    unfold DataPacket6 Pkt6.icmp
    rwa [hproto, hqdata]
  refine ⟨q, hip6, hfrag, hproto, hqdata, hvhdr, by rw [hip6]; exact hlen, ?_⟩
  unfold handleIp6
  rw [hgso, if_neg Bool.false_ne_true, handlePlain6_valid hparse hvalid, if_neg (hip6 ▸ hself), if_neg hone,
    if_pos hpacket]
  unfold xlate6to4Data
  rw [written_mapIp6ToIp4, hip6, hmapDest]
  dsimp only
  rw [written_mapIp6ToIp4, hmapSrc]
  dsimp only
  rw [hqdata, if_neg (Nat.not_lt.2 hmtu)]

/-- A packet from or to a reserved address is dropped. -/
private theorem handleIp6_reserved (hgso : isGso vhdr = false)
    (hreserved : validateIp6Addr h.src ≠ none ∨ validateIp6Addr h.dest ≠ none) :
    written ans (handleIp6 g offload (packet6 h frag data) vhdr) = [] := by
  obtain ⟨n, hparse⟩ := parseIp6_reserved h frag data vhdr false hreserved
  unfold handleIp6
  rw [hgso, if_neg Bool.false_ne_true]
  unfold handlePlain6
  rw [hparse]
  rfl

/-- A packet to the translator itself is answered in IPv6, or not at all. -/
private theorem handleIp6_self (hgso : isGso vhdr = false) (hfit : Fitting h frag proto data)
    (hsrc : validateIp6Addr h.src = none) (hdest : validateIp6Addr h.dest = none) (hself : h.dest = g.localAddr6)
    {back : List Byte} (hmem : back ∈ written ans (handleIp6 g offload (packet6 h frag data) vhdr)) :
    version back = 6 := by
  obtain ⟨q, hparse, hip6, -⟩ := parseIp6_packet6 vhdr hfit hsrc hdest
  have hdrop : ∀ n, OnlyWrites (fun packet => version packet = 6) (statsDrop n) := fun n => OnlyWrites.statsDrop n
  have hall : OnlyWrites (fun packet => version packet = 6) (handlePlain6 g (packet6 h frag data) vhdr) := by
    unfold handlePlain6
    rw [hparse]
    dsimp only
    rw [if_pos (c := q.ip6.dest = g.localAddr6) (hip6 ▸ hself)]
    refine OnlyWrites.ite (fun _ => hdrop _) fun _ => OnlyWrites.ite (fun _ => hdrop _) fun _ => OnlyWrites.ite
      (fun _ => OnlyWrites.ite (fun _ => .emit (version_icmpPacket6 _ _ _ _ _ _)) fun _ => .done _) fun _ =>
      OnlyWrites.ite (fun _ => .done _) fun _ => .emit (version_icmpPacket6 _ _ _ _ _ _)
  unfold handleIp6 at hmem
  rw [hgso, if_neg Bool.false_ne_true] at hmem
  exact hall.mem hmem

end Back

/-! ### The packet that comes back -/

/-- The identification and the flags of the packet that comes back: those of a fragment, and otherwise DF clear and the
next identification up to 1260 bytes, and DF set above that. -/
def returnIdent (ans : (op : PktOp) → op.Ans) (p : Pkt4) : BitVec 16 × BitVec 16 :=
  if p.isFragment then (p.ip4.ident, p.ip4.flagsOffset &&& (ip4FMf ||| ip4FMask))
  else if p.ip4.length.toNat ≤ 1260 then (ans (.reserveIp4Ident 1), 0)
  else (0, ip4FDf)

/-- The header of the packet that comes back, up to its checksum. -/
def returnHeader (ans : (op : PktOp) → op.Ans) (p : Pkt4) : Ip4 :=
  { p.ip4 with
    ident := (returnIdent ans p).1
    flagsOffset := (returnIdent ans p).2
    ttl := p.ip4.ttl - 2
    cksum := 0 }

/-- The packet comes back: addresses, TOS, protocol, length and data are the same, the TTL is lower by two, and the
header has its checksum. -/
structure ComesBack (g : Gcfg) (ans : (op : PktOp) → op.Ans) (p : Pkt4) (back : List Byte) : Prop where
  hheader : Ip4.ofBytes back = (returnHeader ans p).withCksum g.endian
  hcksum : Verifies (back.take 20)
  hdata : SameBytes (if p.noninitial then none else cksumAt p.dataProto) p.data (back.drop 20)

/-- The mapper leads the addresses of the packet to `src` and `dest`, and back. -/
structure RoundTrips (ans ans' : (op : PktOp) → op.Ans) (p : Pkt4) (src dest : In6) : Prop where
  hsrc : ans (.mapIp4ToIp6 p.ip4.src) = .ok src
  hdest : ans (.mapIp4ToIp6 p.ip4.dest) = .ok dest
  hsrcBack : ans' (.mapIp6ToIp4 src true) = .ok p.ip4.src
  hdestBack : ans' (.mapIp6ToIp4 dest false) = .ok p.ip4.dest

private theorem and_flag {f : BitVec 16} (h : f &&& ip4FMf ≠ 0) : f &&& ip4FMf = ip4FMf := by
  have hbit : f &&& ip4FMf = if f.getLsbD 13 then ip4FMf else 0 := BitVec.and_twoPow f 13
  rw [hbit] at h ⊢
  split at h
  · next hset => rw [if_pos hset]
  · exact absurd rfl h

/-- The flags of a fragment, read back. -/
private theorem flags_back (f : BitVec 16) :
    let off := if f &&& ip4FMf ≠ 0 then (f &&& ip4FMask) * 8 ||| ip6FMf else (f &&& ip4FMask) * 8
    (if off &&& ip6FMf ≠ 0 then off >>> 3 ||| ip4FMf else off >>> 3) &&& ~~~ip4FDf = f &&& (ip4FMf ||| ip4FMask) := by
  obtain ⟨hmul, hshift, hshift'⟩ := offset_bits f
  have h8 : 8 ∣ ((f &&& ip4FMask) * 8).toNat := by
    rw [hmul]
    exact Nat.dvd_mul_left 8 _
  obtain ⟨-, hflag, -, hflag'⟩ := offset_flags _ h8
  have hmask : (f &&& ip4FMask) &&& ~~~ip4FDf = f &&& ip4FMask := by
    rw [BitVec.and_assoc, show ip4FMask &&& ~~~ip4FDf = ip4FMask by decide]
  dsimp only
  by_cases hmf : f &&& ip4FMf ≠ 0
  · rw [if_pos hmf, if_pos hflag', hshift', BitVec.and_or_distrib_left, and_flag hmf, BitVec.and_comm _ (~~~ip4FDf),
      BitVec.and_or_distrib_left, BitVec.and_comm, hmask, show ~~~ip4FDf &&& ip4FMf = ip4FMf by decide,
      BitVec.or_comm]
  · rw [if_neg hmf, if_neg (not_not.2 hflag), hshift, hmask, BitVec.and_or_distrib_left, not_not.1 hmf]
    exact BitVec.zero_or.symm

/-- The header that comes back. -/
private theorem dataHeader_back (ans : (op : PktOp) → op.Ans) {q : Pkt6} (hparse : parseIp4 d vhdr false = .ok p)
    (hvalid : Valid4 g p) (hoptions : p.headerLen = 20) (hip6 : q.ip6 = sentHeader p src dest)
    (hfrag : q.frag = sentFrag p src dest)
    (hproto : q.dataProto = if p.dataProto = 1 then 58 else p.dataProto) (hlen : q.data.length = p.data.length) :
    dataHeader6to4 q p.ip4.src p.ip4.dest ((xlateIdent6to4 q q.data.length).answer ans) = returnHeader ans p := by
  have hp := parsed4_of_parseIp4 hparse
  obtain ⟨-, -, hversion⟩ := parseIp4_accepted hparse
  have hheader := parseIp4_headerLen hparse
  have htotal : 20 + p.data.length = p.ip4.length.toNat := by
    rw [← hvalid.hlen, hoptions]
  have hident : (xlateIdent6to4 q q.data.length).answer ans = returnIdent ans p := by
    unfold xlateIdent6to4 returnIdent
    rw [hfrag, hlen, htotal]
    unfold sentFrag
    by_cases hfragment : p.isFragment = true
    · rw [if_pos hfragment, if_pos hfragment]
      have hself : (p.ip4.ident.setWidth 32).setWidth 16 = p.ip4.ident := by
        rw [BitVec.setWidth_setWidth_of_le _ (by decide), BitVec.setWidth_eq]
      exact Prod.ext hself (flags_back p.ip4.flagsOffset)
    · rw [if_neg hfragment, if_neg hfragment]
      dsimp only
      split <;> rfl
  have hihl : ∀ v : Byte, v >>> 4 = 4 → (v &&& 0x0f).toNat * 4 = 20 → v = 0x45 := by decide +kernel
  have htc : ∀ tc, (verTc tc >>> 20).setWidth 8 = tc := by decide +kernel
  have htos : q.ip6.tc = p.ip4.tos := by
    rw [hip6]
    unfold sentHeader
    split <;> exact htc _
  have hhops : q.ip6.hopLimit = p.ip4.ttl - 1 := by
    rw [hip6]
    unfold sentHeader
    split <;> rfl
  have hback : (if q.dataProto = 58 then 1 else q.dataProto) = p.ip4.proto := by
    rw [hproto, ← hp.hproto]
    by_cases h1 : p.dataProto = 1
    · rw [if_pos h1, if_pos rfl, h1]
    · rw [if_neg h1, if_neg hp.hicmp6]
  unfold dataHeader6to4 returnHeader
  rw [hident, htos, hhops, hback, hlen, htotal, BitVec.ofNat_toNat, BitVec.setWidth_eq,
    ← hihl p.ip4.verIhl hversion (hheader.symm.trans hoptions), BitVec.sub_sub]
  rfl

private theorem initial_of_icmp (hparse : parseIp4 d vhdr false = .ok p) (hicmp : p.dataProto = 1) :
    p.noninitial = false := by
  have hwhole := ((parsed4_of_parseIp4 hparse).hicmp hicmp).2 rfl
  rw [← Bool.not_eq_true]
  intro hnon
  have hfragment : p.isFragment = true := noninitial_isFragment hnon
  rw [hwhole] at hfragment
  cases hfragment

/-- A later fragment stays one. -/
private theorem sent_noninitial {q : Pkt6} (hfrag : q.frag = sentFrag p src dest) : q.noninitial = p.noninitial := by
  have h8 : 8 ∣ ((p.ip4.flagsOffset &&& ip4FMask) * 8).toNat := by
    rw [(offset_bits _).1]
    exact Nat.dvd_mul_left 8 _
  obtain ⟨hmask, -, hmask', -⟩ := offset_flags _ h8
  have hzero : (p.ip4.flagsOffset &&& ip4FMask) * 8 = 0 ↔ p.ip4.flagsOffset &&& ip4FMask = 0 := by
    rw [← BitVec.toNat_inj, ← BitVec.toNat_inj, (offset_bits _).1]
    have h0 : (0 : BitVec 16).toNat = 0 := rfl
    omega
  unfold Pkt6.noninitial
  rw [hfrag, Bool.eq_iff_iff]
  unfold sentFrag
  by_cases hfragment : p.isFragment = true
  · rw [if_pos hfragment, Option.any_some, decide_eq_true_eq, Pkt4.noninitial, decide_eq_true_eq]
    refine not_congr (Iff.trans ?_ hzero)
    dsimp only
    split
    · rw [hmask']
    · rw [hmask]
  · rw [if_neg hfragment]
    exact iff_of_false Bool.false_ne_true fun hnon => hfragment (noninitial_isFragment hnon)

/-- The ICMPv6 checksum of an echo message that is sent is accepted. -/
private theorem sent_message {q : Pkt4} (src dest : In6) (hvalid : Valid4 g p) (hfull : needsCsum p.vhdr = false)
    (hicmp : p.dataProto = 1) (hinitial : p.noninitial = false) (hmin : 8 ≤ p.data.length)
    (htype : p.icmp.type = 8 ∨ p.icmp.type = 0)
    (hq : xlatePayload4to6 g p (dataHeader4to6 p src dest) false = some q) :
    onesAdd (ipChecksum g.endian q.data)
      (ip6Checksum g.endian (sentHeader p src dest) (BitVec.ofNat 32 q.data.length) 58) = 0 ∧
    ((Icmp.ofBytes q.data).type = 128 ∨ (Icmp.ofBytes q.data).type = 129) := by
  obtain ⟨ck, hck⟩ : ∃ ck, ck = ip6Checksum g.endian (dataHeader4to6 p src dest)
    (p.ip4.length.setWidth 32 - BitVec.ofNat 32 p.headerLen) 58 := ⟨_, rfl⟩
  have hdata : q.data = (icmp4to6 g.endian ck p.icmp).toBytes ++ p.data.drop 8 := by
    have hpayload : xlatePayload4to6 g p (dataHeader4to6 p src dest) false = _ :=
      congrArg (Option.map _) (xlatePayload_icmp hicmp hinitial hfull)
    rw [hck]
    exact congrArg Pkt4.data (Option.some.inj (hq.symm.trans hpayload))
  have hlen : q.data.length = p.data.length := by
    rw [hdata, List.length_append, length_icmp, List.length_drop]
    omega
  have hshort : p.data.length < 65536 := by
    have := hvalid.hlen
    have := p.ip4.length.isLt
    omega
  have hold : (OnesComplement.sumWords p.data : ZMod 65535) = 0 := by
    have hzero := residue_ipChecksum g.endian p.data
    rw [hvalid.hicmp hicmp, OnesComplement.residue_zero] at hzero
    have hscale := scale_mul_scale g.endian
    linear_combination (scale g.endian) * hzero - (OnesComplement.sumWords p.data : ZMod 65535) * hscale
  have haddr : (sentHeader p src dest).src = src ∧ (sentHeader p src dest).dest = dest := by
    unfold sentHeader
    split <;> exact ⟨rfl, rfl⟩
  have hsum : (OnesComplement.sumWords q.data : ZMod 65535) = -pseudo6 src dest p.data.length 58 := by
    rw [hdata, sumWords_icmp4to6 _ _ _ htype, Pkt4.icmp, icmp_append hmin, hold, hck, residue_ip6Checksum,
      messageLen hvalid.hlen, mul_neg, ← mul_assoc, scale_mul_scale, one_mul, zero_add]
    rfl
  refine ⟨OnesComplement.residue_inj_top (fun h => ipChecksum_ne_top _ _ (onesAdd_eq_top.1 h).1) (by decide) ?_, ?_⟩
  · rw [residue_onesAdd, residue_ipChecksum, residue_ip6Checksum, haddr.1, haddr.2, hsum, hlen, BitVec.toNat_ofNat,
      Nat.mod_eq_of_lt (by omega), OnesComplement.residue_zero]
    ring
  · rw [hdata, Icmp.ofBytes_toBytes]
    unfold icmp4to6
    split
    · exact .inl rfl
    · exact .inr rfl

/-- **A packet there and back.**  A packet without options that is translated to one IPv6 packet comes back from it,
if the mapper leads both addresses back: exactly if no IPv6 address is a reserved one and the packet is not sent to the
translator itself. -/
theorem scalar_round_trip {ans ans' : (op : PktOp) → op.Ans} {offload offload' : Bool} {d packet : List Byte}
    {vhdr vhdr' : Option VnetHdr} {p : Pkt4} {src dest : In6} (hparse : parseIp4 d vhdr false = .ok p)
    (hgso : isGso vhdr = false) (hfull : needsCsum vhdr = false) (hgso' : isGso vhdr' = false)
    (hfull' : needsCsum vhdr' = false) (hoptions : p.headerLen = 20) (httl : 4 ≤ p.ip4.ttl.toNat)
    (hdata : DataPacket4 p) (hudp : p.dataProto = 17 → p.noninitial = false → getBe16 p.data 6 ≠ 0)
    (hans : Delivers ans) (hmtu : mtuMin ≤ g.mtu) (hofflink : mtuMin ≤ g.ipv6OfflinkMtu)
    (hone : written ans (handleIp4 g offload d vhdr) = [packet]) (hversion : version packet = 6)
    (hround : RoundTrips ans ans' p src dest) :
    (∃ back, written ans' (handleIp6 g offload' packet vhdr') = [back] ∧ ComesBack g ans' p back) ↔
      validateIp6Addr src = none ∧ validateIp6Addr dest = none ∧ dest ≠ g.localAddr6 := by
  have hp := parsed4_of_parseIp4 hparse
  have hneeds : needsCsum p.vhdr = false := by rw [hp.hvhdr, hfull]
  have hmessage : p.dataProto = 1 → 8 ≤ p.data.length ∧ (p.icmp.type = 8 ∨ p.icmp.type = 0) := fun h1 =>
    ⟨(hp.hicmp h1).1, hdata.resolve_left (not_not.2 h1)⟩
  obtain ⟨hvalid, hroom, q, hq, hpacket⟩ := handleIp4_single hgso hparse hdata hans hmtu hofflink hone hversion
    hround.hdest hround.hsrc fun q hq => by rw [xlatePayload4to6_vhdr hneeds hudp hq, hneeds]
  have hlen := length_payload4to6 hp hq
  have hshort : p.data.length ≤ 65515 := by
    have := hvalid.hlen
    have := p.ip4.length.isLt
    omega
  have hfit : Fitting (sentHeader p src dest) (sentFrag p src dest) (if p.dataProto = 1 then 58 else p.dataProto)
      q.data := sent_fitting hparse hshort hlen
  have haddr : (sentHeader p src dest).src = src ∧ (sentHeader p src dest).dest = dest ∧
      (sentHeader p src dest).hopLimit = p.ip4.ttl - 1 := by
    unfold sentHeader
    split <;> exact ⟨rfl, rfl, rfl⟩
  rw [hpacket]
  constructor
  · rintro ⟨back, hwritten, hback⟩
    have hvalidAddr : validateIp6Addr src = none ∧ validateIp6Addr dest = none := by
      by_contra hreserved
      rw [not_and_or] at hreserved
      rw [handleIp6_reserved hgso' (by rw [haddr.1, haddr.2.1]; exact hreserved)] at hwritten
      cases hwritten
    refine ⟨hvalidAddr.1, hvalidAddr.2, fun hself => ?_⟩
    have h6 : version back = 6 := handleIp6_self hgso' hfit (by rw [haddr.1]; exact hvalidAddr.1)
      (by rw [haddr.2.1]; exact hvalidAddr.2) (by rw [haddr.2.1]; exact hself)
      (by rw [hwritten]; exact List.mem_cons_self)
    have h4 : version back = 4 := by
      obtain ⟨-, -, hfour⟩ := parseIp4_accepted hparse
      have hfirst : getU8 back 0 = p.ip4.verIhl := congrArg Ip4.verIhl hback.hheader
      rw [version, hfirst, hfour]
    rw [h6] at h4
    exact absurd h4 (by decide)
  · rintro ⟨hsrc, hdest, hself⟩
    have h58 : (if p.dataProto = 1 then 58 else p.dataProto) = 58 → p.dataProto = 1 := by
      intro h58
      by_contra h1
      rw [if_neg h1] at h58
      exact hp.hicmp6 h58
    have hecho := fun h1 => sent_message src dest hvalid hneeds h1 (initial_of_icmp hparse h1) (hmessage h1).1
      (hmessage h1).2 hq
    have htype : (if p.dataProto = 1 then 58 else p.dataProto) ≠ 58 ∨ (Icmp.ofBytes q.data).type = 128 ∨
        (Icmp.ofBytes q.data).type = 129 := by
      by_cases h1 : p.dataProto = 1
      · exact .inr (hecho h1).2
      · exact .inl fun h => h1 (h58 h)
    have hhops : 2 ≤ (sentHeader p src dest).hopLimit.toNat := by
      rw [haddr.2.2, BitVec.toNat_sub]
      have := p.ip4.ttl.isLt
      have hone : (1 : Byte).toNat = 1 := rfl
      omega
    obtain ⟨r, hip6, hfrag, hproto, hrdata, hvhdr, hrlen, hwritten⟩ := handleIp6_emit hgso' hfit
      (by rw [haddr.1]; exact hsrc) (by rw [haddr.2.1]; exact hdest) (by rw [haddr.2.1]; exact hself) hhops
      (by rw [hlen]; exact hroom) (fun h => (hecho (h58 h)).1) htype
      (by rw [haddr.2.1]; exact hround.hdestBack) (by rw [haddr.1]; exact hround.hsrcBack)
    have hheader : sentHeader4 ans' r p.ip4.src p.ip4.dest = returnHeader ans' p :=
      dataHeader_back ans' hparse hvalid hoptions hip6 hfrag hproto (by rw [hrdata, hlen])
    have hundoes : Undoes (payloadCtx4to6 g p (dataHeader4to6 p src dest)) (payloadCtx6to4 g r (returnHeader ans' p)) :=
      undoes (by rw [hip6]; exact haddr.1) (by rw [hip6]; exact haddr.2.1) rfl rfl (sent_noninitial hfrag) hvalid.hlen
        (by rw [← hlen]; exact hrlen)
    obtain ⟨s, hs, hsame⟩ := payload_back hundoes hp.hicmp6 hneeds (by rw [hvhdr, hfull']) hmessage hudp hq hproto
      hrdata
    have hout := written_xlate6to4Emit g ans' r p.ip4.src p.ip4.dest
    rw [hheader, hs] at hout
    refine ⟨_, hwritten.trans hout, Ip4.ofBytes_toBytes _ _, ?_, ?_⟩
    · rw [List.take_left' (length_ip4 _)]
      refine withCksum_verifies _ ?_
      rw [← hheader]
      rfl
    · rw [List.drop_left' (length_ip4 _)]
      exact hsame

/-- An echo request. -/
def tripEcho : List Byte :=
  ((Ip4.mk 0x45 0x10 29 0xbeef 0x4000 64 1 0 0xc0000205 0xc6336407).withCksum .little).toBytes ++
    (Icmp.mk 8 0 38653 0x00010001).toBytes ++ [0x61]

/-- The first fragment of a datagram with a checksum. -/
def tripFragment : List Byte :=
  ((Ip4.mk 0x45 0 36 0xbeef 0x2000 64 17 0 0xc0000205 0xc6336407).withCksum .little).toBytes ++
    (UdpHdr.mk 12345 53 24 0x1234).toBytes ++ List.replicate 8 0x61

/-- A packet without options, parsed. -/
def tripPkt (d : List Byte) : Pkt4 := ⟨d.take 20, d.drop 20, (Ip4.ofBytes d).proto, none⟩

/-- What becomes of it. -/
def tripOut (d : List Byte) : List Byte := (written frameAns (handleIp4 sampleGcfg false d none)).headD []

theorem scalar_round_trip_sample :
    (∃ back, written frameAns (handleIp6 sampleGcfg false (tripOut tripEcho) none) = [back] ∧
      ComesBack sampleGcfg frameAns (tripPkt tripEcho) back) ∧
    ∃ back, written frameAns (handleIp6 sampleGcfg false (tripOut tripFragment) none) = [back] ∧
      ComesBack sampleGcfg frameAns (tripPkt tripFragment) back := by
  have hparse : ∀ d ∈ [tripEcho, tripFragment], parseIp4 d none false = .ok (tripPkt d) := by decide +kernel
  have hpkt : ∀ d ∈ [tripEcho, tripFragment], (tripPkt d).headerLen = 20 ∧ 4 ≤ (tripPkt d).ip4.ttl.toNat ∧
      ((tripPkt d).dataProto ≠ 1 ∨ (tripPkt d).icmp.type = 8 ∨ (tripPkt d).icmp.type = 0) ∧
      ((tripPkt d).dataProto = 17 → (tripPkt d).noninitial = false → getBe16 (tripPkt d).data 6 ≠ 0) := by
    decide +kernel
  have hone : ∀ d ∈ [tripEcho, tripFragment], written frameAns (handleIp4 sampleGcfg false d none) = [tripOut d] ∧
      version (tripOut d) = 6 := by decide +kernel
  have hback : ∀ addr4 : In4, (0x0064ff9b0000000000000000#96 ++ addr4).setWidth 32 = addr4 :=
    fun _ => BitVec.setWidth_append_eq_right
  have haddr : ∀ d ∈ [tripEcho, tripFragment],
      validateIp6Addr (0x0064ff9b0000000000000000#96 ++ (tripPkt d).ip4.src) = none ∧
      validateIp6Addr (0x0064ff9b0000000000000000#96 ++ (tripPkt d).ip4.dest) = none ∧
      0x0064ff9b0000000000000000#96 ++ (tripPkt d).ip4.dest ≠ sampleGcfg.localAddr6 := by decide +kernel
  have htrip : ∀ d ∈ [tripEcho, tripFragment], ∃ back,
      written frameAns (handleIp6 sampleGcfg false (tripOut d) none) = [back] ∧
        ComesBack sampleGcfg frameAns (tripPkt d) back := by
    intro d hd
    obtain ⟨hoptions, httl, hdata, hudp⟩ := hpkt d hd
    exact (scalar_round_trip (hparse d hd) rfl rfl rfl rfl hoptions httl hdata hudp frameAns_delivers (by decide)
      (by decide) (hone d hd).1 (hone d hd).2
      ⟨rfl, rfl, congrArg Except.ok (hback _), congrArg Except.ok (hback _)⟩).2 (haddr d hd)
  exact ⟨htrip tripEcho (.head _), htrip tripFragment (.tail _ (.head _))⟩

/-- The translator's own IPv4 address is link-local and may be translated. -/
def linkLocalStart : Except Error Gcfg :=
  startup sampleLibc .little 1000000
    ("tun-device nat64\nipv4-addr 169.254.0.0\nwkpf-strict no\ndynamic-pool 198.18.0.0/29\n" ++
      "prefix 2001:db8:1::/96\n").toList none fun _ => 0

/-- A TCP segment from that address. -/
def linkLocalSegment : List Byte :=
  ((Ip4.mk 0x45 0 40 0xbeef 0x4000 64 6 0 0xa9fe0000 0xc6336407).withCksum .little).toBytes ++
    (TcpHdr.mk 12345 80 1 0 0x50 2 1024 0xa71f 0 []).toBytes

/-- What becomes of it. -/
def linkLocalOut : List Byte :=
  (Ip6.mk 0x60000000 20 6 63 0 0x20010db80001000000000000c6336407).toBytes ++
    (TcpHdr.mk 12345 80 1 0 0x50 2 1024 0x2364 0 []).toBytes

/-- The state behind the lookups of `handle_ip4`. -/
def mapperAfter (g : Gcfg) (p : Pkt4) : Gcfg := (mapIp4ToIp6 (mapIp4ToIp6 g p.ip4.dest).2 p.ip4.src).2

/-- The mapper leads both addresses back, the source by way of `::`, and `handle_ip6` drops the packet. -/
theorem not_comesBack_linkLocal : ∃ g p src dest, linkLocalStart.map ({ · with mtu := 1500 }) = .ok g ∧
    parseIp4 linkLocalSegment none false = .ok p ∧ ChecksumOk4 p.ip4.src p.ip4.dest p.dataProto p.data ∧
    written (mapperAns g) (handleIp4 g false linkLocalSegment none) = [linkLocalOut] ∧ version linkLocalOut = 6 ∧
    RoundTrips (mapperAns g) (mapperAns (mapperAfter g p)) p src dest ∧
    ¬∃ back, written (mapperAns (mapperAfter g p)) (handleIp6 g false linkLocalOut none) = [back] ∧
      ComesBack g (mapperAns (mapperAfter g p)) p back := by
  obtain ⟨g, hg, hin, hsrc, hdest, hsrcBack, hdestBack, hout⟩ :=
    start_any (r := linkLocalStart.map ({ · with mtu := 1500 }))
    (p := fun g => written (mapperAns g) (handleIp4 g false linkLocalSegment none) = [linkLocalOut] ∧
      (mapIp4ToIp6 g 0xa9fe0000).1 = .ok 0 ∧
      (mapIp4ToIp6 g 0xc6336407).1 = .ok 0x20010db80001000000000000c6336407 ∧
      (mapIp6ToIp4 (mapperAfter g (tripPkt linkLocalSegment)) 0 true).1 = .ok 0xa9fe0000 ∧
      (mapIp6ToIp4 (mapperAfter g (tripPkt linkLocalSegment)) 0x20010db80001000000000000c6336407 false).1 =
        .ok 0xc6336407 ∧
      written (mapperAns (mapperAfter g (tripPkt linkLocalSegment))) (handleIp6 g false linkLocalOut none) = [])
    (by decide +kernel)
  refine ⟨g, tripPkt linkLocalSegment, 0, _, hg, by decide +kernel, ?_, hin, by decide +kernel,
    ⟨hsrc, hdest, hsrcBack, hdestBack⟩, ?_⟩
  · exact ⟨by decide, by decide, by decide, by decide +kernel⟩
  · rintro ⟨back, hback, -⟩
    rw [hout] at hback
    cases hback

end Tayga
