import Tayga.FragmentLaw
import Tayga.TransportLaw
import Tayga.VnetLaw

/-!
# Generated UDP checksums

Where the translator computes a UDP checksum instead of adjusting one, it sums up all the data there is, with the
length of the data in the pseudo-header.  A receiver sums up what the UDP length says.  The two agree if the UDP length
covers the data but for bytes that count nothing (`UdpFits`), so not in a first fragment of a longer datagram, and not
in a packet with other bytes behind the datagram (`generated_checksum`).
-/

namespace Tayga

open Program OnesComplement

variable {g : Gcfg}

/-! ### The UDP length and the data -/

/-- The UDP length covers a header and no more than the data, and what is behind it changes no checksum over all. -/
structure UdpFits (d : List Byte) : Prop where
  hmin : 8 ≤ (getBe16 d 4).toNat
  hmax : (getBe16 d 4).toNat ≤ d.length
  hrest : (sumWords (dropWords (getBe16 d 4).toNat d) + (d.length - (getBe16 d 4).toNat)) % 65535 = 0

/-- The length of a datagram that is all of the data. -/
private theorem udpFits_of_length {d : List Byte} (h8 : 8 ≤ d.length) (h : (getBe16 d 4).toNat = d.length) :
    UdpFits d := by
  refine ⟨by omega, by omega, ?_⟩
  have hnil : sumWords (dropWords d.length d) = 0 := by
    have := sumWords_take_dropWords (d := d) (Nat.le_refl _)
    rw [List.take_length] at this
    omega
  rw [h, hnil, Nat.sub_self]

private theorem dropWords_put {d : List Byte} {i n : Nat} (v : BitVec 16) (hi : i + 2 ≤ n) (hd : i + 2 ≤ d.length) :
    dropWords n (put d i (be16 v)) = dropWords n d := by
  have htake : (d.take i).length = i := List.length_take_of_le (by omega)
  have hdrop : (put d i (be16 v)).drop n = d.drop n := by
    rw [put, length_be16, List.append_assoc, List.drop_append, htake, List.drop_append, length_be16,
      List.drop_of_length_le (show (d.take i).length ≤ n by omega),
      List.drop_of_length_le (show (be16 v).length ≤ n - i by rw [length_be16]; omega), List.drop_drop, List.nil_append,
      List.nil_append]
    congr 1
    omega
  unfold dropWords
  rw [hdrop]

/-- The checksum of a datagram plays no part in this. -/
private theorem udpFits_put {d : List Byte} (v : BitVec 16) (h8 : 8 ≤ d.length) :
    UdpFits (put d 6 (be16 v)) ↔ UdpFits d := by
  have hlen : (put d 6 (be16 v)).length = d.length := length_put (by rw [length_be16]; exact h8)
  have hfield : getBe16 (put d 6 (be16 v)) 4 = getBe16 d 4 := by
    unfold getBe16
    rw [getU8_put (by decide) (by omega), getU8_put (by decide) (by omega)]
  have hrest : 8 ≤ (getBe16 d 4).toNat →
      dropWords (getBe16 d 4).toNat (put d 6 (be16 v)) = dropWords (getBe16 d 4).toNat d :=
    fun h => dropWords_put v h h8
  constructor
  · rintro ⟨hmin, hmax, hsum⟩
    rw [hfield] at hmin hmax hsum
    rw [hrest hmin, hlen] at hsum
    exact ⟨hmin, hlen ▸ hmax, hsum⟩
  · rintro ⟨hmin, hmax, hsum⟩
    refine ⟨by rwa [hfield], by rwa [hfield, hlen], ?_⟩
    rwa [hfield, hrest hmin, hlen]

/-! ### A checksum over all the data -/

/-- The checksums of the pseudo-headers a payload function computes are those of the bytes `pseudo`. -/
def PseudoSums (e : Endian) (ck : BitVec 32 → BitVec 16) (pseudo : Nat → List Byte) : Prop :=
  ∀ len < 65536, residue (ck (BitVec.ofNat 32 len)) = -(scale e * (sumWords (pseudo len) : ZMod 65535))

/-- The length counts in a pseudo-header like any other word. -/
def CountsLength (pseudo : Nat → List Byte) : Prop :=
  ∀ a < 65536, ∀ b < 65536, (sumWords (pseudo a) : ZMod 65535) + b = sumWords (pseudo b) + a

/-- **A checksum over all the data**, put where there was none, is accepted if and only if the UDP length fits. -/
theorem generated_ok {e : Endian} {pseudo : Nat → List Byte} {d : List Byte} {ck : BitVec 16} (h8 : 8 ≤ d.length)
    (hlt : d.length < 65536) (hzero : getBe16 d 6 = 0) (heven : ∀ len, (pseudo len).length % 2 = 0)
    (hne : ∀ len, sumWords (pseudo len) ≠ 0) (hcounts : CountsLength pseudo)
    (hck : residue ck = -(scale e * (sumWords d + sumWords (pseudo d.length) : ZMod 65535))) :
    ChecksumOk pseudo 17 (putU16 e d 6 (nonzeroCksum ck)) ↔ UdpFits d := by
  have hput : putU16 e d 6 (nonzeroCksum ck) = put d 6 (be16 (htons e (nonzeroCksum ck))) := rfl
  have hres : residue (htons e (nonzeroCksum ck)) = -(sumWords d + sumWords (pseudo d.length) : ZMod 65535) := by
    rw [residue_htons, residue_nonzeroCksum, hck, mul_neg, ← mul_assoc, scale_mul_scale, one_mul]
  have hlen : (put d 6 (be16 (htons e (nonzeroCksum ck)))).length = d.length :=
    length_put (by rw [length_be16]; exact h8)
  obtain ⟨hcovered, hpseudo⟩ := covered_put 17 (htons e (nonzeroCksum ck)) (Nat.le_refl 6) h8
  have hL : covered 17 d = (getBe16 d 4).toNat ∧ pseudoLen 17 d = (getBe16 d 4).toNat := ⟨rfl, rfl⟩
  have hlt' := (getBe16 d 4).isLt
  have key : 8 ≤ (getBe16 d 4).toNat → (getBe16 d 4).toNat ≤ d.length →
      (Verifies (pseudo (getBe16 d 4).toNat ++
        (put d 6 (be16 (htons e (nonzeroCksum ck)))).take (getBe16 d 4).toNat) ↔
      (sumWords (dropWords (getBe16 d 4).toNat d) + (d.length - (getBe16 d 4).toNat)) % 65535 = 0) := by
    intro hmin hmax
    have hword := sumWords_put (htons e (nonzeroCksum ck)) (by decide : 6 % 2 = 0) hmin hmax
    have hsplit := sumWords_take_dropWords hmax
    rw [hzero] at hword
    have hcast := congrArg (Nat.cast (R := ZMod 65535)) hword
    have hcast' := congrArg (Nat.cast (R := ZMod 65535)) hsplit
    have hn := hcounts _ hlt' _ hlt
    push_cast at hcast hcast'
    unfold residue at hres
    rw [hres] at hcast
    rw [verifies_iff, sumWords_append (heven _), and_iff_left (by have := hne (getBe16 d 4).toNat; omega),
      ← natCast_eq_zero, Nat.cast_add, Nat.cast_add, Nat.cast_sub hmax]
    constructor
    · intro h
      linear_combination -h + hn + hcast + hcast'
    · intro h
      linear_combination -h + hn + hcast + hcast'
  rw [hput]
  constructor
  · rintro ⟨hmin, hmax, -, hsum⟩
    rw [hcovered, hL.1] at hmin hmax
    rw [hlen] at hmax
    rw [hcovered, hpseudo, hL.1, hL.2] at hsum
    exact ⟨hmin, hmax, (key hmin hmax).1 hsum⟩
  · rintro ⟨hmin, hmax, hrest⟩
    refine ⟨by rw [hcovered]; exact hmin, by rw [hcovered, hlen]; exact hmax, fun _ => ?_, ?_⟩
    · rw [getBe16_put _ h8, ne_eq, htons_ne_zero]
      exact nonzeroCksum_ne_zero ck
    · rw [hcovered, hpseudo, hL.1, hL.2]
      exact (key hmin hmax).2 hrest

private theorem countsLength4 (src dest : In4) (proto : Byte) : CountsLength (pseudoBytes4 src dest proto) := by
  intro a ha b hb
  rw [sumWords_pseudoBytes4 ha, sumWords_pseudoBytes4 hb, pseudo4, pseudo4]
  ring

private theorem countsLength6 (src dest : In6) (proto : Byte) : CountsLength (pseudoBytes6 src dest proto) := by
  intro a ha b hb
  rw [sumWords_pseudoBytes6 ha, sumWords_pseudoBytes6 hb, pseudo6, pseudo6]
  ring

theorem pseudoSums4 (e : Endian) (ip4 : Ip4) (proto : Byte) :
    PseudoSums e (fun len => ip4Checksum e ip4 len proto) (pseudoBytes4 ip4.src ip4.dest proto) := by
  intro len hlen
  rw [residue_ip4Checksum, sumWords_pseudoBytes4 hlen, BitVec.toNat_ofNat, Nat.mod_eq_of_lt (by omega)]

theorem pseudoSums6 (e : Endian) (ip6 : Ip6) (proto : Byte) :
    PseudoSums e (fun len => ip6Checksum e ip6 len proto) (pseudoBytes6 ip6.src ip6.dest proto) := by
  intro len hlen
  rw [residue_ip6Checksum, sumWords_pseudoBytes6 hlen, BitVec.toNat_ofNat, Nat.mod_eq_of_lt (by omega)]

/-! ### The payload functions -/

/-- The translator computes the checksum: of a datagram without one where it is told to, or for the device. -/
def Generates (g : Gcfg) (p : Payload) : Prop :=
  needsCsum p.2 = false ∧ getBe16 p.1 6 = 0 ∧ g.udpCksumMode = .calc ∨ needsCsum p.2 = true ∧ g.vnetHdrSz = 0

section Payload

variable {x : PayloadCtx} {pseudo : Nat → List Byte} {p q : Payload}

/-- The residue of a checksum over some data and a pseudo-header. -/
private theorem residue_cksum {d : List Byte} (hlt : d.length < 65536)
    (hx : PseudoSums g.endian (fun len => x.pseudo len 17) pseudo) :
    residue (x.cksum g 17 d) = -(scale g.endian * (sumWords d + sumWords (pseudo d.length) : ZMod 65535)) := by
  rw [PayloadCtx.cksum, residue_onesAdd, residue_ipChecksum, hx d.length hlt]
  ring

/-- Data with its checksum set to zero. -/
private theorem zeroed {e : Endian} {d : List Byte} (h8 : 8 ≤ d.length) :
    (putU16 e d 6 0).length = d.length ∧ getBe16 (putU16 e d 6 0) 6 = 0 ∧ (UdpFits (putU16 e d 6 0) ↔ UdpFits d) := by
  refine ⟨length_putU16 h8, ?_, udpFits_put _ h8⟩
  rw [putU16, getBe16_put _ h8, htons_zero]

private theorem udp_partial (hneeds : needsCsum p.2 = true) (h : x.udp g false p = some q) :
    8 ≤ p.1.length ∧ q = x.partialCsum g 17 6 nonzeroCksum p := by
  unfold PayloadCtx.udp at h
  rw [hneeds, if_pos rfl] at h
  dsimp only at h
  split at h
  · cases h
  next hshort =>
  split at h
  · cases h
  split at h
  · cases h
  · exact ⟨Nat.not_lt.1 hshort, (Option.some.inj h).symm⟩

private theorem udp_calc (hneeds : needsCsum p.2 = false) (hzero : getBe16 p.1 6 = 0) (hcalc : g.udpCksumMode = .calc)
    (h : x.udp g false p = some q) :
    8 ≤ p.1.length ∧ q = (putU16 g.endian p.1 6 (nonzeroCksum (x.cksum g 17 p.1)), p.2) := by
  have hword : getU16 g.endian p.1 6 = 0 := htons_ne_zero.2 hzero
  unfold PayloadCtx.udp at h
  rw [hneeds, hword, hcalc, if_neg Bool.false_ne_true, if_pos rfl, if_neg Bool.false_ne_true] at h
  split at h
  · cases h
  next hshort => exact ⟨Nat.not_lt.1 hshort, (Option.some.inj h).symm⟩

/-- What is computed. -/
private theorem udp_generated (hlt : p.1.length < 65536) (heven : ∀ len, (pseudo len).length % 2 = 0)
    (hne : ∀ len, sumWords (pseudo len) ≠ 0) (hcounts : CountsLength pseudo)
    (hx : PseudoSums g.endian (fun len => x.pseudo len 17) pseudo) (hgen : Generates g p)
    (h : x.udp g false p = some q) : ChecksumOk pseudo 17 q.1 ↔ UdpFits p.1 := by
  rcases hgen with ⟨hneeds, hzero, hcalc⟩ | ⟨hneeds, hvnet⟩
  · obtain ⟨h8, rfl⟩ := udp_calc hneeds hzero hcalc h
    exact generated_ok h8 hlt hzero heven hne hcounts (residue_cksum hlt hx)
  · obtain ⟨h8, rfl⟩ := udp_partial hneeds h
    obtain ⟨hlen, hzero, hfits⟩ := zeroed (e := g.endian) h8
    rw [← hfits]
    unfold PayloadCtx.partialCsum
    rw [if_pos hvnet]
    exact generated_ok (by omega) (by omega) hzero heven hne hcounts (residue_cksum (by omega) hx)

/-- Nothing is left to the device then. -/
private theorem udp_generated_vhdr (hgen : Generates g p) (h : x.udp g false p = some q) : needsCsum q.2 = false := by
  rcases hgen with ⟨hneeds, hzero, hcalc⟩ | ⟨hneeds, hvnet⟩
  · obtain ⟨-, rfl⟩ := udp_calc hneeds hzero hcalc h
    exact hneeds
  · obtain ⟨-, rfl⟩ := udp_partial hneeds h
    unfold PayloadCtx.partialCsum
    rw [if_pos hvnet]
    exact needsCsum_clearNeedsCsum p.2

private theorem xlatePayload_udp (hicmp : x.icmpProto ≠ 17) (hinitial : x.noninitial = false)
    (h : xlatePayload g x 17 false p = some q) : x.udp g false p = some q := by
  unfold xlatePayload at h
  split at h
  · cases h
  rwa [hinitial, if_neg Bool.false_ne_true, if_neg hicmp.symm, if_pos rfl] at h

end Payload

/-! ### What is sent -/

/-- The transport data the written IPv6 packets carry, put together if they are fragments. -/
def datagram6 (packets : List (List Byte)) : List Byte :=
  packets.flatMap fun packet => if getU8 packet 6 = 44 then fragData packet else packet.drop 40

/-- The translator computes the checksum of the packet from IPv4, perhaps to cut the packet afterwards. -/
def Generated4 (g : Gcfg) (p : Pkt4) : Prop :=
  needsCsum p.vhdr = false ∧ getBe16 p.data 6 = 0 ∧ g.udpCksumMode = .calc ∨
  needsCsum p.vhdr = true ∧ (g.vnetHdrSz = 0 ∨ FragmentPath g p)

/-- The checksum of what is cut into fragments. -/
private theorem completeCsum_ok {p q : Pkt4} {ip6 : Ip6} (hlt : p.data.length < 65536) (hproto : p.dataProto = 17)
    (hinitial : p.noninitial = false) (hq : xlatePayload4to6 g p ip6 false = some q) (hgen : Generated4 g p) :
    ChecksumOk6 ip6.src ip6.dest 17 (completeCsum g q ip6) ↔ UdpFits p.data := by
  obtain ⟨r, hr, rfl⟩ := Option.map_eq_some_iff.1 hq
  rw [hproto] at hr
  have hudp := xlatePayload_udp (show (1 : Byte) ≠ 17 by decide) hinitial hr
  have heven : ∀ len, (pseudoBytes6 ip6.src ip6.dest 17 len).length % 2 = 0 := length_pseudoBytes6 _ _ _
  have hne : ∀ len, sumWords (pseudoBytes6 ip6.src ip6.dest 17 len) ≠ 0 :=
    fun _ => sumWords_pseudoBytes6_ne_zero (by decide)
  have hcounts := countsLength6 ip6.src ip6.dest 17
  have hx := pseudoSums6 g.endian ip6 17
  by_cases hgenerates : Generates g (p.data, p.vhdr)
  · unfold completeCsum
    rw [if_neg (by rw [udp_generated_vhdr hgenerates hudp]; exact Bool.false_ne_true)]
    exact udp_generated hlt heven hne hcounts hx hgenerates hudp
  -- the seed goes out again, and the sum is over all the data
  have hneeds : needsCsum p.vhdr = true := by
    rcases hgen with h | h
    · exact absurd (.inl h) hgenerates
    · exact h.1
  have hvnet : g.vnetHdrSz ≠ 0 := fun h => hgenerates (.inr ⟨hneeds, h⟩)
  obtain ⟨h8, hr'⟩ := udp_partial hneeds hudp
  have h8 : 8 ≤ p.data.length := h8
  rw [PayloadCtx.partialCsum, if_neg hvnet] at hr'
  dsimp only at hr'
  generalize (payloadCtx4to6 g p ip6).seed 17 (BitVec.ofNat 32 p.data.length) = seed at hr'
  subst hr'
  have hlen : (put p.data 6 (be16 seed)).length = p.data.length := length_put (by rw [length_be16]; exact h8)
  have h8' : 8 ≤ (put p.data 6 (be16 seed)).length := by omega
  obtain ⟨hlen', hzero, hfits⟩ := zeroed (e := g.endian) h8'
  rw [← udpFits_put seed h8, ← hfits]
  unfold completeCsum
  rw [if_pos hneeds, hproto]
  dsimp only
  rw [if_pos rfl, if_pos rfl]
  have hlt' : (putU16 g.endian (put p.data 6 (be16 seed)) 6 0).length < 65536 := by omega
  refine generated_ok (by omega) hlt' hzero heven hne hcounts ?_
  have hsum := hx _ hlt'
  rw [residue_onesAdd, residue_ipChecksum, hsum]
  ring

private theorem completeCsum_of_generates {p q : Pkt4} {ip6 : Ip6} (hproto : p.dataProto = 17)
    (hinitial : p.noninitial = false)
    (hq : xlatePayload4to6 g p ip6 false = some q) (hgen : Generates g (p.data, p.vhdr)) :
    completeCsum g q ip6 = q.data := by
  obtain ⟨r, hr, rfl⟩ := Option.map_eq_some_iff.1 hq
  rw [hproto] at hr
  have hudp := xlatePayload_udp (show (1 : Byte) ≠ 17 by decide) hinitial hr
  have hneeds := (udp_generated_vhdr hgen hudp)
  unfold completeCsum
  rw [if_neg (by rw [hneeds]; exact Bool.false_ne_true)]

/-- The fragments carry the data and the addresses. -/
private theorem datagram6_fragmentsOf {ip6 : Ip6} {frag : Ip6Frag} {mf : Bool} {off : BitVec 16} {size : Nat}
    {data : List Byte} (h44 : ip6.nextHeader = 44) : datagram6 (fragmentsOf ip6 frag mf off size 0 data) = data ∧
      ∀ packet ∈ fragmentsOf ip6 frag mf off size 0 data,
        (Ip6.ofBytes packet).src = ip6.src ∧ (Ip6.ofBytes packet).dest = ip6.dest := by
  have hnext : ∀ s, getU8 (fragmentOf ip6 frag mf off s) 6 = 44 := fun _ => h44
  unfold fragmentsOf datagram6
  by_cases hnil : data = []
  · rw [if_pos hnil]
    exact ⟨hnil.symm, fun _ h => absurd h List.not_mem_nil⟩
  · rw [if_neg hnil, List.flatMap_map]
    refine ⟨?_, fun packet hmem => ?_⟩
    · simp only [hnext, if_true, fragData_fragmentOf]
      exact Cut.cut_flatten size 0 data
    · obtain ⟨s, -, rfl⟩ := List.mem_map.1 hmem
      unfold fragmentOf
      dsimp only
      rw [Ip6.ofBytes_toBytes]
      exact ⟨rfl, rfl⟩

/-- The packet that is sent in one piece carries its data. -/
private theorem datagram6_whole {p q : Pkt4} {src dest : In6} (hproto : p.dataProto = 17) :
    datagram6 [(dataHeader4to6 p src dest).toBytes ++ q.data] = q.data := by
  have hnext : getU8 ((dataHeader4to6 p src dest).toBytes ++ q.data) 6 = 17 := by
    show (if p.dataProto = 1 then (58 : Byte) else p.dataProto) = 17
    rw [hproto]
    decide
  rw [datagram6, List.flatMap_singleton, hnext, if_neg (by decide)]
  exact List.drop_left' (length_ip6 _)

/-- **A datagram with a generated checksum to IPv6**, in the packets of a run that is translated. -/
theorem generated4 {p : Pkt4} {d : List Byte} {vhdr : Option VnetHdr} {t : List (Sigma PktOp.Ans)} {r : Unit}
    (hparse : parseIp4 d vhdr false = .ok p) (hmtu : mtuMin ≤ g.mtu) (hofflink : mtuMin ≤ g.ipv6OfflinkMtu)
    (hproto : p.dataProto = 17) (hinitial : p.noninitial = false) (hgen : Generated4 g p)
    (hruns : (xlate4to6Data g p).Runs t r) (hsent : AllSent t) (hout : ∃ packet ∈ outputs t, version packet = 6) :
    ∃ src dest, (∀ packet ∈ outputs t, (Ip6.ofBytes packet).src = src ∧ (Ip6.ofBytes packet).dest = dest) ∧
      (ChecksumOk6 src dest 17 (datagram6 (outputs t)) ↔ UdpFits p.data) := by
  have hp := parsed4_of_parseIp4 hparse
  have hlimit := limit6_ge hmtu hofflink
  have hlt : p.data.length < 65536 := by
    have := hp.hlen
    have := p.ip4.length.isLt
    omega
  rcases xlate4to6Data_runs hruns with hnone | ⟨t', src, dest, noFragHdr, rfl, hnoFrag, -, hemit⟩
  · exact (version_absurd hnone hout).elim
  rw [outputs_mapIp4ToIp6, outputs_mapIp4ToIp6] at hout ⊢
  refine ⟨src, dest, ?_⟩
  have hnil : outputs t' ≠ [] := by
    intro hnil
    rw [hnil] at hout
    obtain ⟨packet, hmem, -⟩ := hout
    cases hmem
  cases noFragHdr with
  | true =>
    have hpath : ¬FragmentPath g p := fun h => Bool.false_ne_true (hnoFrag.2 h).symm
    rcases xlate4to6Emit_whole hemit with ⟨-, hzero⟩ | ⟨q, hq, houtputs⟩
    · exact absurd hzero hnil
    have hgenerates : Generates g (p.data, p.vhdr) := by
      rcases hgen with h | ⟨hneeds, h⟩
      · exact .inl h
      · exact .inr ⟨hneeds, h.resolve_right hpath⟩
    have hok := completeCsum_ok hlt hproto hinitial hq hgen
    rw [completeCsum_of_generates hproto hinitial hq hgenerates] at hok
    rw [houtputs, datagram6_whole hproto]
    refine ⟨fun packet hmem => ?_, hok⟩
    obtain rfl := List.mem_singleton.1 hmem
    rw [Ip6.ofBytes_toBytes]
    exact ⟨rfl, rfl⟩
  | false =>
    rcases xlate4to6Emit_fragments (by omega) hsent.tail.tail hemit with ⟨-, hzero⟩ | ⟨q, hq, houtputs⟩
    · exact absurd hzero hnil
    have hok := completeCsum_ok hlt hproto hinitial hq hgen
    obtain ⟨hdata, haddr⟩ : datagram6 (outputs t') = completeCsum g q (dataHeader4to6 p src dest) ∧
        ∀ packet ∈ outputs t', (Ip6.ofBytes packet).src = src ∧ (Ip6.ofBytes packet).dest = dest := by
      rw [houtputs]
      exact datagram6_fragmentsOf rfl
    rw [hdata]
    exact ⟨haddr, hok⟩

/-- **A datagram with a generated checksum to IPv4.** -/
theorem generated6 {p : Pkt6} {d : List Byte} {vhdr : Option VnetHdr} {t : List (Sigma PktOp.Ans)} {r : Unit}
    (hparse : parseIp6 d vhdr false = .ok p) (hproto : p.dataProto = 17) (hinitial : p.noninitial = false)
    (hgen : Generates g (p.data, p.vhdr)) (hruns : (xlate6to4Data g p).Runs t r)
    (hout : ∃ packet ∈ outputs t, version packet = 4) :
    ∃ packet, outputs t = [packet] ∧
      (ChecksumOk4 (Ip4.ofBytes packet).src (Ip4.ofBytes packet).dest 17 (packet.drop 20) ↔ UdpFits p.data) := by
  have hlt : p.data.length < 65536 := by
    obtain ⟨hs, -, -, -, hlen, -⟩ := parseIp6_eq_ok hparse
    have hle : (ip6Data d).length ≤ (Ip6.ofBytes d).payloadLength.toNat := by
      rw [ip6Data, List.length_take]
      exact Nat.min_le_left _ _
    have := (Ip6.ofBytes d).payloadLength.isLt
    omega
  rcases xlate6to4Data_runs hruns with hnone | ⟨t', src, dest, rfl, -, hemit⟩
  · obtain ⟨packet, hmem, hversion⟩ := hout
    have hversion' := hnone packet hmem
    rw [hversion] at hversion'
    exact absurd hversion' (by decide)
  rw [outputs_mapIp6ToIp4, outputs_mapIp6ToIp4] at hout ⊢
  obtain ⟨t₁, t₂, ident, rfl, -, hquiet, hsent⟩ := xlate6to4Emit_runs hemit
  rw [outputs_append, hquiet, List.nil_append] at hout ⊢
  rcases hsent with ⟨-, hnil⟩ | ⟨q, hq, houtputs⟩
  · rw [hnil] at hout
    obtain ⟨packet, hmem, -⟩ := hout
    cases hmem
  refine ⟨_, houtputs, ?_⟩
  obtain ⟨w, hw, rfl⟩ := Option.map_eq_some_iff.1 hq
  rw [hproto] at hw
  have hudp := xlatePayload_udp (show (58 : Byte) ≠ 17 by decide) hinitial hw
  have hok : ChecksumOk (pseudoBytes4 src dest 17) 17 w.1 ↔ UdpFits p.data :=
    udp_generated hlt (length_pseudoBytes4 _ _ _) (fun _ => sumWords_pseudoBytes4_ne_zero (by decide))
      (countsLength4 src dest 17) (pseudoSums4 g.endian (dataHeader6to4 p src dest ident) 17) hgen hudp
  rw [Ip4.ofBytes_toBytes, List.drop_left' (length_ip4 _)]
  exact hok

/-- **Generated UDP checksums.**  In every run that translates a datagram and computes its checksum, to IPv6 in one
piece or in fragments or to IPv4, the checksum is accepted if and only if the UDP length fits. -/
theorem generated_checksum (g : Gcfg) (d : List Byte) (vhdr : Option VnetHdr) (t : List (Sigma PktOp.Ans))
    (hmtu : mtuMin ≤ g.mtu) (hofflink : mtuMin ≤ g.ipv6OfflinkMtu) :
    (∀ p, parseIp4 d vhdr false = .ok p → p.dataProto = 17 → p.noninitial = false → Generated4 g p →
      (xlate4to6Data g p).Runs t () → AllSent t → (∃ packet ∈ outputs t, version packet = 6) →
      ∃ src dest, (∀ packet ∈ outputs t, (Ip6.ofBytes packet).src = src ∧ (Ip6.ofBytes packet).dest = dest) ∧
        (ChecksumOk6 src dest 17 (datagram6 (outputs t)) ↔ UdpFits p.data)) ∧
    ∀ p, parseIp6 d vhdr false = .ok p → p.dataProto = 17 → p.noninitial = false → Generates g (p.data, p.vhdr) →
      (xlate6to4Data g p).Runs t () → (∃ packet ∈ outputs t, version packet = 4) →
      ∃ packet, outputs t = [packet] ∧
        (ChecksumOk4 (Ip4.ofBytes packet).src (Ip4.ofBytes packet).dest 17 (packet.drop 20) ↔ UdpFits p.data) :=
  ⟨fun _ hparse hproto hinitial hgen hruns hsent hout =>
    generated4 hparse hmtu hofflink hproto hinitial hgen hruns hsent hout,
    fun _ hparse hproto hinitial hgen hruns hout => generated6 hparse hproto hinitial hgen hruns hout⟩

/-- A configuration that computes the checksums that are missing. -/
def calcGcfg : Gcfg := { sampleGcfg with udpCksumMode := .calc }

/-- UDP data without a checksum in a packet with these flags, of a datagram of `len` bytes. -/
def zeroUdp (flags len : BitVec 16) : List Byte :=
  ((Ip4.mk 0x45 0 36 0xbeef flags 64 17 0 0xc0000205 0xc6336407).withCksum .little).toBytes ++
    ((UdpHdr.mk 1234 53 len 0).toBytes ++ [0, 1, 2, 3, 4, 5, 6, 7])

/-- The same, parsed. -/
def zeroUdpPkt (flags len : BitVec 16) : Pkt4 := ⟨(zeroUdp flags len).take 20, (zeroUdp flags len).drop 20, 17, none⟩

/-- What becomes of it. -/
def zeroUdpRun (flags len : BitVec 16) : List (Sigma PktOp.Ans) :=
  ((xlate4to6Data calcGcfg (zeroUdpPkt flags len)).exec (fun op _ => (sampleAns op, ())) ()).1

theorem generated_checksum_sample : ∃ src dest, ChecksumOk6 src dest 17 (datagram6 (outputs (zeroUdpRun 0 16))) := by
  obtain ⟨src, dest, -, hiff⟩ := (generated_checksum calcGcfg (zeroUdp 0 16) none (zeroUdpRun 0 16) (by decide)
    (by decide)).1 (zeroUdpPkt 0 16) (by decide +kernel) rfl (by decide +kernel)
    (.inl ⟨rfl, by decide +kernel, rfl⟩) (runs_exec _ _ _) (by decide +kernel) (by decide +kernel)
  exact ⟨src, dest, hiff.2 (udpFits_of_length (by decide) (by decide +kernel))⟩

/-- What is sent for the first fragment of a datagram of 24 bytes. -/
def firstFragmentRun : List (Sigma PktOp.Ans) :=
  ((handleIp4 calcGcfg false (zeroUdp 0x2000 24) none).exec (fun op _ => (sampleAns op, ())) ()).1

/-- It has a checksum over the 16 bytes of the fragment. -/
theorem not_checksumOk_fragment : AllSent firstFragmentRun ∧ getBe16 (datagram6 (outputs firstFragmentRun)) 6 ≠ 0 ∧
    ∀ src dest, ¬ChecksumOk6 src dest 17 (datagram6 (outputs firstFragmentRun)) := by
  have hlen : (datagram6 (outputs firstFragmentRun)).length = 16 := by decide +kernel
  have hcovered : covered 17 (datagram6 (outputs firstFragmentRun)) = 24 := by decide +kernel
  refine ⟨by decide +kernel, by decide +kernel, ?_⟩
  intro src dest h
  have hmax := h.hmax
  rw [hcovered, hlen] at hmax
  omega

end Tayga
