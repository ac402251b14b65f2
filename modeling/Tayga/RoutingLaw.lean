import Tayga.Codec
import Tayga.FlowLaw
import Tayga.Parsing
import Tayga.Written

/-!
# Routing headers

`parse_ip6` keeps Segments Left of the last routing header it meets, and it meets only those in front of the fragment
header.  So a packet with a routing header that has segments left is refused only if that last one has some as well
(`routing_refused`).  The Parameter Problem for a refused packet points one byte past the Segments Left field
(`routing_pointer`).
-/

namespace Tayga

open Program

variable {g : Gcfg} {offload : Bool} {d : List Byte} {vhdr : Option VnetHdr}

/-! ### Packets with routing headers -/

/-- A routing header at offset `off` of the chain of extension headers. -/
def RoutingAt (d : List Byte) (off : Nat) : Prop := ExtChain (.ofList d) (getU8 d 6) 40 43 off

/-- The chain of extension headers has a routing header with segments left. -/
def RoutingPending (d : List Byte) : Prop := ∃ off, RoutingAt d off ∧ getU8 d (off + 3) ≠ 0

/-- A packet with an upper layer right behind its header has no routing header. -/
private theorem not_routingAt {off : Nat} (h : RoutingAt d off) : getU8 d 6 ≠ 6 ∧ getU8 d 6 ≠ 17 := by
  unfold RoutingAt at h
  generalize getU8 d 6 = proto at h
  constructor
  all_goals
    rintro rfl
    cases h with
    | options hproto _ => exact absurd hproto (by decide)

/-- **Packets with a routing header that has segments left**: the parser reports no success and nothing is translated
exactly if the packet is malformed otherwise, or the last routing header in front of the fragment header has segments
left as well. -/
theorem routing_refused (g : Gcfg) (offload : Bool) (d : List Byte) (vhdr : Option VnetHdr) (h : RoutingPending d) :
    ((∀ em p, parseIp6 d vhdr em ≠ .ok p) ∧
      OnlyWrites (fun packet => version packet ≠ 4) (handleIp6 g offload d vhdr)) ↔
    ∀ em hs frag proto data, WellFormed6 em d hs frag proto data → lastSegLeft hs ≠ 0 := by
  constructor
  · rintro ⟨hparse, -⟩ em hs frag proto data hwf hzero
    obtain ⟨p, ptr, -, -, -, -, -, -, -, -, hp⟩ := parseIp6_of_wellFormed vhdr hwf
    rw [if_pos hzero] at hp
    exact hparse em p hp
  · intro hlast
    have hparse : ∀ em p, parseIp6 d vhdr em ≠ .ok p := by
      intro em p hp
      obtain ⟨hs, hwf, hzero, -⟩ := parseIp6_eq_ok hp
      exact hlast em hs _ _ _ hwf hzero
    refine ⟨hparse, ?_⟩
    obtain ⟨off, hoff, -⟩ := h
    have hnone : OnlyWrites (Wrote6to4 fun _ => False) (handleIp6 g offload d vhdr) := by
      refine handleIp6_writes (fun _ p hp _ => hparse false p hp) fun _ proto hvalid hproto => ?_
      have hnext : getU8 d 6 = proto := (of_decide_eq_true hvalid).2.1
      rcases hproto with rfl | rfl
      · exact (not_routingAt hoff).1 hnext
      · exact (not_routingAt hoff).2 hnext
    refine hnone.mono fun packet hpacket => ?_
    cases hpacket with
    | ip6 rest hv =>
      rw [Ip6.version_toBytes hv]
      decide
    | ip4 rest hv hq => exact hq.elim

/-- A UDP packet behind two routing headers, the first with one segment left and the second with none. -/
def routedPacket : List Byte :=
  [0x60, 0, 0, 0, 0, 24, 43, 64,
    0x20, 0x01, 0x0d, 0xb8, 0, 0, 0, 0, 0, 0, 0, 0, 0xc0, 0, 2, 5,
    0x00, 0x64, 0xff, 0x9b, 0, 0, 0, 0, 0, 0, 0, 0, 0xc6, 0x33, 0x64, 7,
    43, 0, 0, 1, 0, 0, 0, 0,
    17, 0, 0, 0, 0, 0, 0, 0,
    0x30, 0x39, 0x00, 0x35, 0x00, 0x08, 0x12, 0x34]

/-- The packet with two routing headers is one the law is about. -/
theorem routing_refused_sample :
    ((∀ em p, parseIp6 routedPacket none em ≠ .ok p) ∧
      OnlyWrites (fun packet => version packet ≠ 4) (handleIp6 sampleGcfg false routedPacket none)) ↔
    ∀ em hs frag proto data, WellFormed6 em routedPacket hs frag proto data → lastSegLeft hs ≠ 0 :=
  routing_refused sampleGcfg false routedPacket none ⟨40, .here, by decide⟩

/-- The second routing header hides the first one: the packet is accepted and translated. -/
theorem not_refused_routed : RoutingPending routedPacket ∧ (∃ p, parseIp6 routedPacket none false = .ok p) ∧
    ∃ packet ∈ written sampleAns (handleIp6 sampleGcfg false routedPacket none), version packet = 4 := by
  refine ⟨⟨40, .here, by decide⟩, ⟨_, rfl⟩, ?_⟩
  decide +kernel

/-! ### The Parameter Problem -/

/-- Every header of the chain starts at a multiple of four bytes. -/
private theorem extChain_dvd {p : Mem} {proto proto' : Byte} {off off' : Nat} (h : ExtChain p proto off proto' off')
    (hoff : 4 ∣ off) : 4 ∣ off' := by
  induction h with
  | here => exact hoff
  | options _ _ ih => exact ih (by omega)
  | auth _ ih => exact ih (by omega)
  | fragment _ _ ih => exact ih (by omega)

/-- An ICMPv6 Parameter Problem about an erroneous header field. -/
def IsParameterProblem (packet : List Byte) : Prop :=
  version packet = 6 ∧ getU8 packet 6 = 58 ∧ getU8 packet 40 = 4 ∧ getU8 packet 41 = 0

instance : DecidablePred IsParameterProblem := fun _ => inferInstanceAs (Decidable (_ ∧ _))

/-- The pointer of a Parameter Problem. -/
def pointer (packet : List Byte) : Nat := (getBe32 packet 44).toNat

/-- If the packet is a Parameter Problem, it points to the Segments Left field of a routing header of `d`. -/
def PointsToSegmentsLeft (d packet : List Byte) : Prop :=
  IsParameterProblem packet → ∃ off, RoutingAt d off ∧ pointer packet = off + 3

/-- The ICMPv6 header of a packet. -/
private theorem icmp6_of_toBytes (h : Ip6) (icmp : Icmp) (rest : List Byte) :
    getU8 (h.toBytes ++ (icmp.toBytes ++ rest)) 40 = icmp.type ∧
    getU8 (h.toBytes ++ (icmp.toBytes ++ rest)) 41 = icmp.code ∧
    getBe32 (h.toBytes ++ (icmp.toBytes ++ rest)) 44 = icmp.word :=
  ⟨rfl, rfl, ofBytes4_byte4 icmp.word⟩

/-- The Parameter Problem the parser has sent, to all but ICMPv6 messages other than echo requests. -/
private theorem hostSendIcmp6Error_problem (g : Gcfg) (ptr : Nat) {p : Pkt6}
    (hp : ¬(p.dataProto = 58 ∧ p.icmp.type ≠ 128)) :
    ∃ packet, hostSendIcmp6Error g 4 0 (BitVec.ofNat 32 ptr) p = emit none packet ∧ IsParameterProblem packet ∧
    pointer packet = ptr % 2 ^ 32 := by
  unfold hostSendIcmp6Error
  rw [if_neg hp]
  refine ⟨_, rfl, ?_⟩
  unfold IsParameterProblem pointer
  rw [List.append_assoc]
  obtain ⟨htype, hcode, hword⟩ := icmp6_of_toBytes ⟨_, _, _, _, _, _⟩ ⟨_, _, _, _⟩ _
  rw [htype, hcode, hword, Ip6.version_toBytes rfl, ((Ip6.mk _ _ _ _ _ _).getU8_toBytes _).2.1]
  exact ⟨⟨rfl, rfl, rfl, rfl⟩, BitVec.toNat_ofNat _ _⟩

/-- **The pointer of the Parameter Problem**: for a packet refused because of a routing header it is the offset of a
Segments Left field only in so far as no Parameter Problem is sent, to an ICMPv6 message other than an echo request. -/
theorem routing_pointer (g : Gcfg) (offload : Bool) (d : List Byte) (vhdr : Option VnetHdr) (hs : List ExtHdr)
    (frag : Option Ip6Frag) (proto : Byte) (data : List Byte) (hplain : isGso vhdr = false)
    (hwf : WellFormed6 false d hs frag proto data) (hseg : lastSegLeft hs ≠ 0) :
    OnlyWrites (PointsToSegmentsLeft d) (handleIp6 g offload d vhdr) ↔ proto = 58 ∧ getU8 data 0 ≠ 128 := by
  obtain ⟨p, ptr, hptr, -, -, -, -, rfl, rfl, -, hparse⟩ := parseIp6_of_wellFormed vhdr hwf
  rw [if_neg hseg] at hparse
  have hhandle : handleIp6 g offload d vhdr = (do
      hostSendIcmp6Error g 4 0 (BitVec.ofNat 32 (ptr + 4)) p
      statsDrop p.data.length) := by
    unfold handleIp6 handlePlain6
    rw [hplain, hparse]
    rfl
  rw [hhandle]
  constructor
  · intro h
    by_contra hsent
    obtain ⟨packet, hpacket, hproblem, hpointer⟩ := hostSendIcmp6Error_problem g (ptr + 4) hsent
    rw [hpacket] at h
    have hpoints : PointsToSegmentsLeft d packet := h.1
    obtain ⟨off, hoff, heq⟩ := hpoints hproblem
    -- the pointer is a multiple of four, the field lies three behind one
    have hfour : 4 ∣ off := extChain_dvd hoff (by decide)
    omega
  · intro hsilent
    unfold hostSendIcmp6Error
    rw [if_pos (show p.dataProto = 58 ∧ p.icmp.type ≠ 128 from hsilent)]
    exact OnlyWrites.statsDrop _

/-- A UDP datagram. -/
def sampleUdp : List Byte := [0x30, 0x39, 0x00, 0x35, 0x00, 0x08, 0x12, 0x34]

/-- A routing header with one segment left. -/
def sampleRouting : List Byte := [17, 0, 0, 1, 0, 0, 0, 0]

/-- A UDP packet behind a routing header with one segment left. -/
def refusedPacket : List Byte :=
  [0x60, 0, 0, 0, 0, 16, 43, 64,
    0x20, 0x01, 0x0d, 0xb8, 0, 0, 0, 0, 0, 0, 0, 0, 0xc0, 0, 2, 5,
    0x00, 0x64, 0xff, 0x9b, 0, 0, 0, 0, 0, 0, 0, 0, 0xc6, 0x33, 0x64, 7] ++ (sampleRouting ++ sampleUdp)

theorem routing_pointer_sample :
    OnlyWrites (PointsToSegmentsLeft refusedPacket) (handleIp6 sampleGcfg false refusedPacket none) ↔
    (17 : Byte) = 58 ∧ getU8 sampleUdp 0 ≠ 128 := by
  refine routing_pointer sampleGcfg false refusedPacket none [(43, sampleRouting)] none 17 sampleUdp rfl ?_ (by decide)
  have hchain : ExtHeaders 43 (sampleRouting ++ sampleUdp) [(43, sampleRouting)] 17 sampleUdp :=
    .cons rfl rfl (.nil (by decide))
  exact ⟨by decide, by decide, by decide, by decide, by decide, ⟨17, sampleUdp, hchain, .whole (by decide)⟩,
    by decide, by decide⟩

/-- The Segments Left field is at offset 43, and the Parameter Problem points to 44. -/
theorem not_pointsToSegmentsLeft : RoutingAt refusedPacket 40 ∧ getU8 refusedPacket 43 = 1 ∧
    ∃ packet ∈ written sampleAns (handleIp6 sampleGcfg false refusedPacket none),
      IsParameterProblem packet ∧ pointer packet = 44 ∧ ¬PointsToSegmentsLeft refusedPacket packet := by
  have hsent : ∃ packet ∈ written sampleAns (handleIp6 sampleGcfg false refusedPacket none),
      IsParameterProblem packet ∧ pointer packet = 44 := by decide +kernel
  obtain ⟨packet, hmem, hproblem, hpointer⟩ := hsent
  refine ⟨.here, by decide, packet, hmem, hproblem, hpointer, fun h => ?_⟩
  obtain ⟨off, hoff, heq⟩ := h hproblem
  have hfour : 4 ∣ off := extChain_dvd hoff (by decide)
  omega

end Tayga
