import Tayga.Outputs
import Tayga.Traces

/-!
# Runs of the data paths

What a run of `xlate_4to6_data` and of `xlate_6to4_data` comes to: an ICMP error to the sender or nothing, or else both
addresses are mapped and the packet is translated, in one piece or in fragments.
-/

namespace Tayga

open Program

variable {g : Gcfg} {t : List (Sigma PktOp.Ans)} {r : Unit}

/-- A program that only writes packets of one version, in a run. -/
private theorem OnlyWrites.version_outputs {v : Byte} {prog : PktProg Unit}
    (h : OnlyWrites (fun packet => version packet = v) prog) (hruns : prog.Runs t r) :
    ∀ packet ∈ outputs t, version packet = v :=
  fun _ hmem => h.mem_outputs hruns hmem

/-! ### Headers read back -/

theorem Ip4.ofBytes_toBytes (h : Ip4) (rest : List Byte) : Ip4.ofBytes (h.toBytes ++ rest) = h := by
  cases h
  simp only [Ip4.ofBytes, Ip4.mk.injEq]
  exact ⟨rfl, rfl, append_be16 _, append_be16 _, append_be16 _, rfl, rfl, append_be16 _, ofBytes4_byte4 _,
    ofBytes4_byte4 _⟩

/-- The bytes of the words of an address, put together again. -/
private theorem ofWords6_bytes (a : In6) : ofWords6
    (ofBytes4 (byte4 (word6 a 0) 0) (byte4 (word6 a 0) 1) (byte4 (word6 a 0) 2) (byte4 (word6 a 0) 3))
    (ofBytes4 (byte4 (word6 a 1) 0) (byte4 (word6 a 1) 1) (byte4 (word6 a 1) 2) (byte4 (word6 a 1) 3))
    (ofBytes4 (byte4 (word6 a 2) 0) (byte4 (word6 a 2) 1) (byte4 (word6 a 2) 2) (byte4 (word6 a 2) 3))
    (ofBytes4 (byte4 (word6 a 3) 0) (byte4 (word6 a 3) 1) (byte4 (word6 a 3) 2) (byte4 (word6 a 3) 3)) = a := by
  rw [ofBytes4_byte4, ofBytes4_byte4, ofBytes4_byte4, ofBytes4_byte4, ofWords6_word6]

theorem Ip6.ofBytes_toBytes (h : Ip6) (rest : List Byte) : Ip6.ofBytes (h.toBytes ++ rest) = h := by
  have hsrc : getIn6 (h.toBytes ++ rest) 8 = h.src := ofWords6_bytes h.src
  have hdest : getIn6 (h.toBytes ++ rest) 24 = h.dest := ofWords6_bytes h.dest
  rw [Ip6.ofBytes, hsrc, hdest]
  cases h
  rw [Ip6.mk.injEq]
  exact ⟨ofBytes4_byte4 _, append_be16 _, rfl, rfl, rfl, rfl⟩

theorem Ip6Frag.ofBytes_toBytes (f : Ip6Frag) (rest : List Byte) : Ip6Frag.ofBytes (f.toBytes ++ rest) = f := by
  cases f
  rw [Ip6Frag.ofBytes, Ip6Frag.mk.injEq]
  exact ⟨rfl, rfl, append_be16 _, ofBytes4_byte4 _⟩

theorem Icmp.ofBytes_toBytes (icmp : Icmp) (rest : List Byte) : Icmp.ofBytes (icmp.toBytes ++ rest) = icmp := by
  cases icmp
  rw [Icmp.ofBytes, Icmp.mk.injEq]
  exact ⟨rfl, rfl, append_be16 _, ofBytes4_byte4 _⟩

/-! ### To IPv6 -/

section To6

variable {p : Pkt4}

/-- The largest IPv6 packet for a packet that may be fragmented. -/
def limit6 (g : Gcfg) : Nat := if g.mtu < g.ipv6OfflinkMtu then g.mtu else g.ipv6OfflinkMtu

theorem limit6_le : limit6 g ≤ g.mtu := by
  unfold limit6
  split <;> omega

/-- The packet is sent in fragments: it is one, or it has DF clear and does not fit. -/
def FragmentPath (g : Gcfg) (p : Pkt4) : Prop :=
  p.isFragment ∨ p.ip4.flagsOffset &&& ip4FDf = 0 ∧ limit6 g - 40 < p.data.length

instance : Decidable (FragmentPath g p) := inferInstanceAs (Decidable (_ ∨ _))

private theorem hostSendIcmp4Error_version {type code : Byte} {word : BitVec 32} :
    OnlyWrites (fun packet => version packet = 4) (hostSendIcmp4Error g type code word p) :=
  OnlyWrites.ite (fun _ => .done _) fun _ => .emit (version_icmpPacket4 _ _ _ _ _ _)

/-- What `xlate_4to6_data` does once both addresses are mapped: the packet is too big, or it is sent. -/
theorem xlate4to6Data_mapped {src dest : In6} (hruns : (xlate4to6Data g p).Runs
      (⟨.mapIp4ToIp6 p.ip4.dest, .ok dest⟩ :: ⟨.mapIp4ToIp6 p.ip4.src, .ok src⟩ :: t) r) :
    (¬FragmentPath g p ∧ ∀ packet ∈ outputs t, version packet = 4) ∨
    ∃ noFragHdr, (noFragHdr = false ↔ FragmentPath g p) ∧ (noFragHdr = true → p.data.length ≤ g.mtu - 40) ∧
      (xlate4to6Emit g p src dest (limit6 g - 40) noFragHdr).Runs t r := by
  unfold xlate4to6Data at hruns
  obtain ⟨_, _, ⟨rfl, rfl⟩, _, _, ⟨rfl, rfl⟩, hruns⟩ := hruns
  dsimp only at hruns
  rw [show (if g.mtu < g.ipv6OfflinkMtu then g.mtu else g.ipv6OfflinkMtu) = limit6 g from rfl] at hruns
  by_cases hfrag : p.ip4.flagsOffset &&& (ip4FMask ||| ip4FMf) = 0
  · have hwhole : ¬p.isFragment := fun h => of_decide_eq_true h hfrag
    rw [if_pos hfrag] at hruns
    by_cases hdf : p.ip4.flagsOffset &&& ip4FDf = 0
    · rw [if_neg (not_not.2 hdf)] at hruns
      refine .inr ⟨_, ?_, fun hfit => ?_, hruns⟩
      · rw [decide_eq_false_iff_not, Nat.not_le]
        exact ⟨fun hlt => .inr ⟨hdf, hlt⟩, fun h => (h.resolve_left hwhole).2⟩
      · have hle : limit6 g ≤ g.mtu := limit6_le
        have hfit := of_decide_eq_true hfit
        omega
    · have hpath : ¬FragmentPath g p := fun h => hdf (h.resolve_left hwhole).1
      rw [if_pos hdf] at hruns
      split at hruns
      · exact .inl ⟨hpath, hostSendIcmp4Error_version.version_outputs hruns⟩
      · next hfit =>
        exact .inr ⟨true, iff_of_false (fun h => Bool.false_ne_true h.symm) hpath, fun _ => by omega, hruns⟩
  · rw [if_neg hfrag] at hruns
    exact .inr ⟨false, iff_of_true rfl (.inl (decide_eq_true hfrag)), fun h => absurd h Bool.false_ne_true, hruns⟩

/-- **A run of `xlate_4to6_data`**: nothing is written in IPv6, or both addresses are mapped. -/
theorem xlate4to6Data_runs (hruns : (xlate4to6Data g p).Runs t r) :
    (∀ packet ∈ outputs t, version packet = 4) ∨
    ∃ t' src dest noFragHdr, t = ⟨.mapIp4ToIp6 p.ip4.dest, .ok dest⟩ :: ⟨.mapIp4ToIp6 p.ip4.src, .ok src⟩ :: t' ∧
      (noFragHdr = false ↔ FragmentPath g p) ∧ (noFragHdr = true → p.data.length ≤ g.mtu - 40) ∧
      (xlate4to6Emit g p src dest (limit6 g - 40) noFragHdr).Runs t' r := by
  have hreject : ∀ code, OnlyWrites (fun packet => version packet = 4)
      (statsDrop p.data.length >>= fun _ => hostSendIcmp4Error g 3 code 0 p) :=
    fun code => (OnlyWrites.statsDrop _).bind fun _ => hostSendIcmp4Error_version
  have hwhole := hruns
  unfold xlate4to6Data at hruns
  obtain ⟨dest, t, rfl, hruns⟩ := hruns
  rw [outputs_mapIp4ToIp6]
  rcases dest with (_ | _ | _) | dest
  · exact .inl ((hreject 1).version_outputs hruns)
  · exact .inl ((OnlyWrites.statsDrop _).version_outputs hruns)
  · exact .inl ((OnlyWrites.statsDrop _).version_outputs hruns)
  obtain ⟨src, t, rfl, hruns⟩ := hruns
  rw [outputs_mapIp4ToIp6]
  rcases src with (_ | _ | _) | src
  · exact .inl ((hreject 10).version_outputs hruns)
  · exact .inl ((OnlyWrites.statsDrop _).version_outputs hruns)
  · exact .inl ((OnlyWrites.statsDrop _).version_outputs hruns)
  rcases xlate4to6Data_mapped hwhole with ⟨-, hnone⟩ | ⟨noFragHdr, hpath, hfit, hemit⟩
  · exact .inl hnone
  · exact .inr ⟨t, src, dest, noFragHdr, rfl, hpath, hfit, hemit⟩

/-- The packet that is sent in one piece. -/
theorem xlate4to6Emit_whole {src dest : In6} {n : Nat} (hruns : (xlate4to6Emit g p src dest n true).Runs t r) :
    xlatePayload4to6 g p (dataHeader4to6 p src dest) false = none ∧ outputs t = [] ∨
    ∃ q, xlatePayload4to6 g p (dataHeader4to6 p src dest) false = some q ∧
      outputs t = [(dataHeader4to6 p src dest).toBytes ++ q.data] := by
  unfold xlate4to6Emit at hruns
  dsimp only at hruns
  rcases hq : xlatePayload4to6 g p (dataHeader4to6 p src dest) false with _ | q
  · rw [show xlatePayload4to6 g p { xlateHeader4to6 p src dest p.data.length with hopLimit := _ } false = none from hq]
      at hruns
    obtain ⟨_, _, rfl, rfl, -⟩ := hruns
    exact .inl ⟨rfl, rfl⟩
  · rw [show xlatePayload4to6 g p { xlateHeader4to6 p src dest p.data.length with hopLimit := _ } false = some q
      from hq] at hruns
    dsimp only at hruns
    rw [if_pos rfl] at hruns
    obtain ⟨_, _, rfl, rfl, -⟩ := hruns
    exact .inr ⟨q, rfl, rfl⟩

end To6

/-! ### To IPv4 -/

section To4

variable {p : Pkt6}

private theorem hostSendIcmp6Error_version {type code : Byte} {word : BitVec 32} :
    OnlyWrites (fun packet => version packet = 6) (hostSendIcmp6Error g type code word p) :=
  OnlyWrites.ite (fun _ => .done _) fun _ => .emit (version_icmpPacket6 _ _ _ _ _ _)

theorem outputs_mapIp6ToIp4 (addr6 : In6) (alloc : Bool) (x : Except Error In4) (t : List (Sigma PktOp.Ans)) :
    outputs (⟨.mapIp6ToIp4 addr6 alloc, x⟩ :: t) = outputs t := rfl

/-- **A run of `xlate_6to4_data`**: nothing is written in IPv4, or both addresses are mapped. -/
theorem xlate6to4Data_runs (hruns : (xlate6to4Data g p).Runs t r) :
    (∀ packet ∈ outputs t, version packet = 6) ∨
    ∃ t' src dest, t = ⟨.mapIp6ToIp4 p.ip6.dest false, .ok dest⟩ :: ⟨.mapIp6ToIp4 p.ip6.src true, .ok src⟩ :: t' ∧
      40 + p.data.length ≤ g.mtu ∧ (xlate6to4Emit g p src dest).Runs t' r := by
  have hreject : ∀ code, OnlyWrites (fun packet => version packet = 6)
      (statsDrop p.data.length >>= fun _ => hostSendIcmp6Error g 1 code 0 p) :=
    fun code => (OnlyWrites.statsDrop _).bind fun _ => hostSendIcmp6Error_version
  unfold xlate6to4Data at hruns
  obtain ⟨dest, t, rfl, hruns⟩ := hruns
  rw [outputs_mapIp6ToIp4]
  rcases dest with (_ | _ | _) | dest
  · exact .inl ((hreject 0).version_outputs hruns)
  · exact .inl ((OnlyWrites.statsDrop _).version_outputs hruns)
  · exact .inl ((OnlyWrites.statsDrop _).version_outputs hruns)
  obtain ⟨src, t, rfl, hruns⟩ := hruns
  rw [outputs_mapIp6ToIp4]
  rcases src with (_ | _ | _) | src
  · exact .inl ((hreject 5).version_outputs hruns)
  · exact .inl ((OnlyWrites.statsDrop _).version_outputs hruns)
  · exact .inl ((OnlyWrites.statsDrop _).version_outputs hruns)
  dsimp only at hruns
  split at hruns
  · exact .inl (hostSendIcmp6Error_version.version_outputs hruns)
  · next hbig => exact .inr ⟨t, src, dest, rfl, Nat.not_lt.1 hbig, hruns⟩

/-- The header of a packet on the data path, with the identification and the flags it got. -/
def dataHeader6to4 (p : Pkt6) (src dest : In4) (ident : BitVec 16 × BitVec 16) : Ip4 where
  verIhl := 0x45
  tos := p.ip6.tc
  length := BitVec.ofNat 16 (20 + p.data.length)
  ident := ident.1
  flagsOffset := ident.2
  ttl := p.ip6.hopLimit - 1
  proto := if p.dataProto = 58 then 1 else p.dataProto
  cksum := 0
  src := src
  dest := dest

/-- The packet that is sent. -/
theorem xlate6to4Emit_runs {src dest : In4} (hruns : (xlate6to4Emit g p src dest).Runs t r) :
    ∃ t₁ t₂ ident, t = t₁ ++ t₂ ∧ (xlateIdent6to4 p p.data.length).Runs t₁ ident ∧ outputs t₁ = [] ∧
    (xlatePayload6to4 g p (dataHeader6to4 p src dest ident) false = none ∧ outputs t₂ = [] ∨
    ∃ q, xlatePayload6to4 g p (dataHeader6to4 p src dest ident) false = some q ∧
      outputs t₂ = [((dataHeader6to4 p src dest ident).withCksum g.endian).toBytes ++ q.data]) := by
  unfold xlate6to4Emit xlateHeader6to4 at hruns
  rw [bind_assoc] at hruns
  obtain ⟨t₁, t₂, ident, rfl, hident, hruns⟩ := runs_bind.1 hruns
  refine ⟨t₁, t₂, ident, rfl, hident, ?_, ?_⟩
  · unfold xlateIdent6to4 at hident
    split at hident
    · rw [hident.1]
      rfl
    · split at hident
      · obtain ⟨_, _, rfl, rfl, -⟩ := hident
        rfl
      · rw [hident.1]
        rfl
  rw [pure_eq, done_bind] at hruns
  dsimp only at hruns
  rcases hq : xlatePayload6to4 g p (dataHeader6to4 p src dest ident) false with _ | q
  · unfold dataHeader6to4 at hq
    rw [hq] at hruns
    obtain ⟨_, _, rfl, rfl, -⟩ := hruns
    exact .inl ⟨rfl, rfl⟩
  · have hq' := hq
    unfold dataHeader6to4 at hq'
    rw [hq'] at hruns
    obtain ⟨_, _, rfl, rfl, -⟩ := hruns
    exact .inr ⟨q, rfl, rfl⟩

end To4

end Tayga
