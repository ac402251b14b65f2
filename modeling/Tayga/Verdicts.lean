import Tayga.Outputs

/-!
# What becomes of a packet

Which of the checks in front of the translation decides about a packet that is no ICMP message, on the path of the
plain packets (`verdict4`, `verdict6`): the packet is dropped, an error is sent, or it is translated.
-/

namespace Tayga

open Program

variable {g : Gcfg} {d : List Byte} {vhdr : Option VnetHdr} {ans : (op : PktOp) → op.Ans} {α β : Type}

/-- What the checks say of a packet; one that passes goes from `src` to `dest` in the other family. -/
inductive Verdict (α : Type) where
  | drop
  | error (type code : Byte) (word : BitVec 32)
  | pass (src dest : α)

/-- What is written, given the error packets and what is written for a packet that passes. -/
def Verdict.written (error : Byte → Byte → BitVec 32 → List Byte) (pass : α → α → List (List Byte)) :
    Verdict α → List (List Byte)
  | .drop => []
  | .error type code word => [error type code word]
  | .pass src dest => pass src dest

/-- The class of what becomes of a packet. -/
inductive Outcome where
  | drop
  | error (type code : Byte)
  | translated
deriving Repr, DecidableEq

/-- The class of a verdict. -/
def Verdict.outcome : Verdict α → Outcome
  | .drop => .drop
  | .error type code _ => .error type code
  | .pass _ _ => .translated

/-- The outcome for a packet of version `family`, from the packets written: one of the same version is an error, with
its ICMP header at `icmpAt`. -/
def Outcome.ofWritten (family : Byte) (icmpAt : Nat) : List (List Byte) → Outcome
  | [] => .drop
  | packet :: _ =>
    if version packet = family then .error (getU8 packet icmpAt) (getU8 packet (icmpAt + 1)) else .translated

/-- What becomes of an IPv4 packet. -/
def outcome4 (ans : (op : PktOp) → op.Ans) (prog : PktProg α) : Outcome := .ofWritten 4 20 (written ans prog)

/-- What becomes of an IPv6 packet. -/
def outcome6 (ans : (op : PktOp) → op.Ans) (prog : PktProg α) : Outcome := .ofWritten 6 40 (written ans prog)

theorem Outcome.ofWritten_other {family : Byte} {icmpAt : Nat} {packets : List (List Byte)} (hne : packets ≠ [])
    (hversion : ∀ packet ∈ packets, version packet ≠ family) : ofWritten family icmpAt packets = .translated := by
  cases packets with
  | nil => exact absurd rfl hne
  | cons packet packets => exact if_neg (hversion packet List.mem_cons_self)

/-- What is written shows the verdict. -/
theorem Verdict.ofWritten_written {family : Byte} {icmpAt : Nat} {error : Byte → Byte → BitVec 32 → List Byte}
    {pass : α → α → List (List Byte)} (verdict : Verdict α)
    (herror : ∀ type code word, Outcome.ofWritten family icmpAt [error type code word] = .error type code)
    (hpass : ∀ src dest, Outcome.ofWritten family icmpAt (pass src dest) = .translated) :
    Outcome.ofWritten family icmpAt (verdict.written error pass) = verdict.outcome := by
  cases verdict with
  | drop => rfl
  | error type code word => exact herror type code word
  | pass src dest => exact hpass src dest

/-! ### IPv6 to IPv4 -/

/-- The mapper and the MTU, for the IPv6 addresses of a packet with `l4Len` bytes behind its headers. -/
def mapVerdict6 (g : Gcfg) (ans : (op : PktOp) → op.Ans) (src dest : In6) (l4Len : Nat) : Verdict In4 :=
  match ans (.mapIp6ToIp4 dest false) with
  | .error .reject => .error 1 0 0
  | .error _ => .drop
  | .ok dest4 => match ans (.mapIp6ToIp4 src true) with
    | .error .reject => .error 1 5 0
    | .error _ => .drop
    | .ok src4 => if g.mtu < 40 + l4Len then .error 2 0 (BitVec.ofNat 32 g.mtu) else .pass src4 dest4

/-- `handle_ip6` and `xlate_6to4_data`, for an accepted packet. -/
def verdict6 (g : Gcfg) (ans : (op : PktOp) → op.Ans) (p : Pkt6) : Verdict In4 :=
  if p.ip6.dest = g.localAddr6 then .error 4 1 6
  else if p.ip6.hopLimit = 1 then .error 3 0 0
  else mapVerdict6 g ans p.ip6.src p.ip6.dest p.data.length

theorem hostSendIcmp6Error_eq {type code : Byte} {word : BitVec 32} {p : Pkt6} (hp : p.dataProto ≠ 58) :
    hostSendIcmp6Error g type code word p = emit none (errorPacket6 g type code word p) := by
  unfold hostSendIcmp6Error
  rw [if_neg fun h => hp h.1]
  exact hostSendIcmp6_eq _ _ _ _ _ _

private theorem xlate6to4Data_verdict {p : Pkt6} (hp : p.dataProto ≠ 58) : written ans (xlate6to4Data g p) =
    (mapVerdict6 g ans p.ip6.src p.ip6.dest p.data.length).written (errorPacket6 g · · · p)
      fun src dest => written ans (xlate6to4Emit g p src dest) := by
  unfold xlate6to4Data mapVerdict6
  rw [written_mapIp6ToIp4]
  rcases ans (.mapIp6ToIp4 p.ip6.dest false) with (_ | _ | _) | dest
  · dsimp only
    rw [hostSendIcmp6Error_eq hp]
    rfl
  · rfl
  · rfl
  dsimp only
  rw [written_mapIp6ToIp4]
  rcases ans (.mapIp6ToIp4 p.ip6.src true) with (_ | _ | _) | src
  · dsimp only
    rw [hostSendIcmp6Error_eq hp]
    rfl
  · rfl
  · rfl
  dsimp only
  by_cases hbig : g.mtu < 40 + p.data.length
  · rw [if_pos hbig, if_pos hbig, hostSendIcmp6Error_eq hp]
    rfl
  · rw [if_neg hbig, if_neg hbig]
    rfl

/-- **An accepted IPv6 packet** that is no ICMPv6 message. -/
theorem handlePlain6_verdict {p : Pkt6} (hparse : parseIp6 d vhdr false = .ok p) (hvalid : Valid6 g p)
    (hp : p.dataProto ≠ 58) : written ans (handlePlain6 g d vhdr) =
    (verdict6 g ans p).written (errorPacket6 g · · · p) fun src dest => written ans (xlate6to4Emit g p src dest) := by
  rw [handlePlain6_valid hparse hvalid, if_neg hp, if_pos (show DataPacket6 p from .inl hp)]
  unfold verdict6
  by_cases hdest : p.ip6.dest = g.localAddr6
  · rw [if_pos hdest, if_pos hdest, hostSendIcmp6Error_eq hp]
    rfl
  rw [if_neg hdest, if_neg hdest]
  by_cases hhops : p.ip6.hopLimit = 1
  · rw [if_pos hhops, if_pos hhops, hostSendIcmp6Error_eq hp]
    rfl
  rw [if_neg hhops, if_neg hhops]
  exact xlate6to4Data_verdict hp

theorem xlate6to4Emit_version {p : Pkt6} {src dest : In4} {packet : List Byte}
    (hmem : packet ∈ written ans (xlate6to4Emit g p src dest)) : version packet = 4 := by
  have h : OnlyWrites (fun packet => version packet = 4) (xlate6to4Emit g p src dest) := by
    refine Asks.bind (xlateHeader6to4_to4 trivial p src dest p.data.length) fun ip4 hip4 => ?_
    dsimp only
    split
    · exact ⟨trivial, fun _ => trivial⟩
    · refine ⟨Ip4.version_toBytes ?_ _, fun _ => trivial⟩
      exact hip4.hverIhl
  exact h.mem hmem

private theorem mapVerdict6_type {src dest : In6} {l4Len : Nat} {type code : Byte} {word : BitVec 32}
    (h : mapVerdict6 g ans src dest l4Len = .error type code word) : type ∈ ([1, 2] : List Byte) := by
  unfold mapVerdict6 at h
  split at h
  · cases h
    decide
  · cases h
  split at h
  · cases h
    decide
  · cases h
  split at h
  · cases h
    decide
  · cases h

theorem verdict6_type {p : Pkt6} {type code : Byte} {word : BitVec 32} (h : verdict6 g ans p = .error type code word) :
    type ∈ ([1, 2, 3, 4] : List Byte) := by
  have hall : ∀ type ∈ ([1, 2] : List Byte), type ∈ ([1, 2, 3, 4] : List Byte) := by decide
  unfold verdict6 at h
  split at h
  · cases h
    decide
  split at h
  · cases h
    decide
  · exact hall _ (mapVerdict6_type h)

/-- An error is due for an accepted packet, if it is no ICMPv6 message. -/
inductive Refused6 (g : Gcfg) (ans : (op : PktOp) → op.Ans) (p : Pkt6) : Prop where
  | self (hdest : p.ip6.dest = g.localAddr6)
  | expired (hhops : p.ip6.hopLimit = 1)
  | noDest (hmap : ans (.mapIp6ToIp4 p.ip6.dest false) = .error .reject)
  | noSrc (hdest : Mapped6 ans p.ip6.dest false) (hmap : ans (.mapIp6ToIp4 p.ip6.src true) = .error .reject)
  | tooBig (hdest : Mapped6 ans p.ip6.dest false) (hsrc : Mapped6 ans p.ip6.src true)
      (hbig : g.mtu < 40 + p.data.length)

private theorem mapVerdict6_error {src dest : In6} {l4Len : Nat} :
    (∃ type code word, mapVerdict6 g ans src dest l4Len = .error type code word) ↔
    ans (.mapIp6ToIp4 dest false) = .error .reject ∨
    Mapped6 ans dest false ∧ (ans (.mapIp6ToIp4 src true) = .error .reject ∨
      Mapped6 ans src true ∧ g.mtu < 40 + l4Len) := by
  unfold mapVerdict6 Mapped6
  rcases ans (.mapIp6ToIp4 dest false) with (_ | _ | _) | dest4
  · simp
  · simp
  · simp
  rcases ans (.mapIp6ToIp4 src true) with (_ | _ | _) | src4
  · simp
  · simp
  · simp
  by_cases hbig : g.mtu < 40 + l4Len <;> simp [hbig]

theorem verdict6_error {p : Pkt6} :
    (∃ type code word, verdict6 g ans p = .error type code word) ↔ Refused6 g ans p := by
  unfold verdict6
  by_cases hdest : p.ip6.dest = g.localAddr6
  · rw [if_pos hdest]
    exact iff_of_true ⟨_, _, _, rfl⟩ (.self hdest)
  rw [if_neg hdest]
  by_cases hhops : p.ip6.hopLimit = 1
  · rw [if_pos hhops]
    exact iff_of_true ⟨_, _, _, rfl⟩ (.expired hhops)
  rw [if_neg hhops, mapVerdict6_error]
  constructor
  · rintro (hmap | ⟨hmapped, hmap | ⟨hsrc, hbig⟩⟩)
    · exact .noDest hmap
    · exact .noSrc hmapped hmap
    · exact .tooBig hmapped hsrc hbig
  · rintro (h | h | hmap | ⟨hmapped, hmap⟩ | ⟨hmapped, hsrc, hbig⟩)
    · exact absurd h hdest
    · exact absurd h hhops
    · exact .inl hmap
    · exact .inr ⟨hmapped, .inl hmap⟩
    · exact .inr ⟨hmapped, .inr ⟨hsrc, hbig⟩⟩

/-! ### IPv4 to IPv6 -/

/-- The mapper, for the IPv4 addresses of a packet. -/
def mapVerdict4 (ans : (op : PktOp) → op.Ans) (src dest : In4) : Verdict In6 :=
  match ans (.mapIp4ToIp6 dest) with
  | .error .reject => .error 3 1 0
  | .error _ => .drop
  | .ok dest6 => match ans (.mapIp4ToIp6 src) with
    | .error .reject => .error 3 10 0
    | .error _ => .drop
    | .ok src6 => .pass src6 dest6

instance : DecidablePred DontFragment := fun _ => inferInstanceAs (Decidable (_ ∧ _))

/-- The MTU, for a packet whose addresses are mapped. -/
def Verdict.fitting (g : Gcfg) (h : Ip4) (l4Len : Nat) : Verdict In6 → Verdict In6
  | .pass src dest =>
    if DontFragment h ∧ g.mtu < 40 + l4Len then .error 3 4 (fragMtu g) else .pass src dest
  | refused => refused

/-- `handle_ip4` and `xlate_4to6_data`, for an accepted packet. -/
def verdict4 (g : Gcfg) (ans : (op : PktOp) → op.Ans) (p : Pkt4) : Verdict In6 :=
  if p.ip4.dest = g.localAddr4 then .error 3 2 0
  else if p.ip4.ttl = 1 then .error 11 0 0
  else (mapVerdict4 ans p.ip4.src p.ip4.dest).fitting g p.ip4 p.data.length

theorem hostSendIcmp4Error_eq {type code : Byte} {word : BitVec 32} {p : Pkt4} (hp : p.dataProto ≠ 1) :
    hostSendIcmp4Error g type code word p = emit none (errorPacket4 g type code word p) := by
  unfold hostSendIcmp4Error
  rw [if_neg fun h => hp h.1]
  exact hostSendIcmp4_eq _ _ _ _ _ _

private theorem xlate4to6Data_verdict (g : Gcfg) (ans : (op : PktOp) → op.Ans) {p : Pkt4} (hp : p.dataProto ≠ 1) :
    ∃ fragSize noFragHdr, written ans (xlate4to6Data g p) =
    ((mapVerdict4 ans p.ip4.src p.ip4.dest).fitting g p.ip4 p.data.length).written (errorPacket4 g · · · p)
      fun src dest => written ans (xlate4to6Emit g p src dest fragSize noFragHdr) := by
  obtain ⟨fragSize, hsize⟩ : ∃ n, (if g.mtu < g.ipv6OfflinkMtu then g.mtu else g.ipv6OfflinkMtu) - 40 = n := ⟨_, rfl⟩
  -- how a packet that passes is cut
  refine ⟨fragSize, if p.ip4.flagsOffset &&& (ip4FMask ||| ip4FMf) = 0 then
    if p.ip4.flagsOffset &&& ip4FDf ≠ 0 then true else p.data.length ≤ fragSize else false, ?_⟩
  unfold xlate4to6Data mapVerdict4
  dsimp only
  rw [written_mapIp4ToIp6]
  rcases ans (.mapIp4ToIp6 p.ip4.dest) with (_ | _ | _) | dest
  · dsimp only
    rw [hostSendIcmp4Error_eq hp]
    rfl
  · rfl
  · rfl
  dsimp only
  rw [written_mapIp4ToIp6]
  rcases ans (.mapIp4ToIp6 p.ip4.src) with (_ | _ | _) | src
  · dsimp only
    rw [hostSendIcmp4Error_eq hp]
    rfl
  · rfl
  · rfl
  dsimp only [Verdict.fitting]
  rw [hsize]
  by_cases hfrag : p.ip4.flagsOffset &&& (ip4FMask ||| ip4FMf) = 0
  · rw [if_pos hfrag, if_pos hfrag]
    by_cases hdf : p.ip4.flagsOffset &&& ip4FDf ≠ 0
    · rw [if_pos hdf, if_pos hdf]
      by_cases hbig : g.mtu < 40 + p.data.length
      · rw [if_pos hbig, if_pos ⟨⟨hfrag, hdf⟩, hbig⟩, hostSendIcmp4Error_eq hp]
        rfl
      · rw [if_neg hbig, if_neg fun h => hbig h.2]
        rfl
    · rw [if_neg hdf, if_neg hdf, if_neg fun h => hdf h.1.2]
      rfl
  · rw [if_neg hfrag, if_neg hfrag, if_neg fun h => hfrag h.1.1]
    rfl

theorem handlePlain4_valid {p : Pkt4} (hparse : parseIp4 d vhdr false = .ok p) (hvalid : Valid4 g p) :
    handlePlain4 g d vhdr =
    if p.ip4.dest = g.localAddr4 then if p.dataProto = 1 then hostHandleIcmp4 g p else hostSendIcmp4Error g 3 2 0 p
    else if p.ip4.ttl = 1 then hostSendIcmp4Error g 11 0 0 p
    else if DataPacket4 p then xlate4to6Data g p
    else xlate4to6IcmpError g p := by
  have hheader : ¬(p.ip4.ttl = 0 ∨ ipChecksum g.endian p.header ≠ 0 ∨
      p.headerLen + p.data.length ≠ p.ip4.length.toNat) := by
    rw [not_or, not_or, not_not, not_not]
    exact ⟨hvalid.httl, hvalid.hheader, hvalid.hlen⟩
  unfold handlePlain4
  rw [hparse]
  dsimp only
  rw [if_neg hheader, if_neg fun h => h.2 (hvalid.hicmp h.1)]
  rfl

/-- **An accepted IPv4 packet** that is no ICMP message. -/
theorem handlePlain4_verdict (ans : (op : PktOp) → op.Ans) {p : Pkt4} (hparse : parseIp4 d vhdr false = .ok p)
    (hvalid : Valid4 g p) (hp : p.dataProto ≠ 1) : ∃ fragSize noFragHdr, written ans (handlePlain4 g d vhdr) =
    (verdict4 g ans p).written (errorPacket4 g · · · p)
      fun src dest => written ans (xlate4to6Emit g p src dest fragSize noFragHdr) := by
  obtain ⟨fragSize, noFragHdr, hdata⟩ := xlate4to6Data_verdict g ans hp
  refine ⟨fragSize, noFragHdr, ?_⟩
  rw [handlePlain4_valid hparse hvalid, if_neg hp, if_pos (show DataPacket4 p from .inl hp)]
  unfold verdict4
  by_cases hdest : p.ip4.dest = g.localAddr4
  · rw [if_pos hdest, if_pos hdest, hostSendIcmp4Error_eq hp]
    rfl
  rw [if_neg hdest, if_neg hdest]
  by_cases httl : p.ip4.ttl = 1
  · rw [if_pos httl, if_pos httl, hostSendIcmp4Error_eq hp]
    rfl
  rw [if_neg httl, if_neg httl]
  exact hdata

end Tayga
