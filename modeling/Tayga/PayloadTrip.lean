import Tayga.Built

/-!
# Payloads there and back

The payload functions of the two directions undo each other (`Undoes.payload`): between the same addresses the transport
bytes come back, but for the checksum, which may come back as the other zero (`SameBytes`).
-/

namespace Tayga

open OnesComplement

variable {g : Gcfg}

/-! ### Transport bytes -/

/-- Equal, or both of them zeros of one's complement arithmetic. -/
def SameCksum (x y : BitVec 16) : Prop := x = y ∨ (x = 0 ∨ x = 0xffff) ∧ (y = 0 ∨ y = 0xffff)

instance (x y : BitVec 16) : Decidable (SameCksum x y) := inferInstanceAs (Decidable (_ ∨ _))

/-- Where a transport header of an IPv4 packet has its checksum. -/
def cksumAt (proto : Byte) : Option Nat :=
  if proto = 1 then some 2 else if proto = 6 then some 16 else if proto ∈ adjustedProtos then some 6 else none

/-- The same bytes, but for a checksum at offset `off`, which may be the other zero. -/
def SameBytes (off : Option Nat) (d d' : List Byte) : Prop :=
  match off with
  | none => d' = d
  | some off => ∃ ck, SameCksum ck (getBe16 d off) ∧ d' = put d off (be16 ck)

private theorem sameCksum_of_residue {x y : BitVec 16} (h : residue x = residue y) : SameCksum x y := by
  by_cases hx : x = 0 ∨ x = 0xffff
  · rw [residue_eq_zero.2 hx] at h
    exact .inr ⟨hx, residue_eq_zero.1 h.symm⟩
  · have hy : y ≠ 0 := by
      rintro rfl
      rw [residue_zero] at h
      exact hx (residue_eq_zero.1 h)
    exact .inl (residue_inj (fun h0 => hx (.inl h0)) hy h)

private theorem put_put {d s s' : List Byte} {i : Nat} (hlen : s.length = s'.length) (hi : i + s.length ≤ d.length) :
    put (put d i s) i s' = put d i s' := by
  have htake : (d.take i).length = i := List.length_take_of_le (by omega)
  have hfront : (put d i s).take i = d.take i := by
    rw [put, List.append_assoc, List.take_left' htake]
  have hback : (put d i s).drop (i + s.length) = d.drop (i + s.length) :=
    List.drop_left' (by rw [List.length_append, htake])
  rw [put, hfront, ← hlen, hback, put, hlen]

/-- A message with another checksum. -/
private theorem put_cksum {d : List Byte} (hlen : 8 ≤ d.length) (ck : BitVec 16) :
    put d 0 { Icmp.ofBytes d with cksum := ck }.toBytes = put d 2 (be16 ck) := by
  match d, hlen with
  | a :: b :: c :: e :: r0 :: r1 :: r2 :: r3 :: rest, _ =>
    have hword : be32 (getBe32 (a :: b :: c :: e :: r0 :: r1 :: r2 :: r3 :: rest) 4) = [r0, r1, r2, r3] :=
      congrArg₂ List.cons (byte4_ofBytes4_zero _ _ _ _) (congrArg₂ List.cons (byte4_ofBytes4_one _ _ _ _)
        (congrArg₂ List.cons (byte4_ofBytes4_two _ _ _ _) (congrArg₂ List.cons (byte4_ofBytes4_three _ _ _ _) rfl)))
    unfold Icmp.toBytes
    dsimp only [Icmp.ofBytes]
    rw [hword]
    rfl

/-! ### Payloads -/

section Payload

variable {x y : PayloadCtx} {proto : Byte} {p r : Payload} {vhdr : Option VnetHdr}

/-- A payload that is left as it is: that of a later fragment, or of a protocol without a checksum over addresses. -/
def KeepsPayload (x : PayloadCtx) (proto : Byte) : Prop :=
  x.noninitial = true ∨ proto ∉ adjustedProtos ∧ proto ≠ x.icmpProto

private theorem xlatePayload_kept (h : KeepsPayload x proto) (hfull : needsCsum p.2 = false) :
    xlatePayload g x proto false p = some p := by
  unfold xlatePayload
  rw [hfull, if_neg fun h => Bool.false_ne_true h.2]
  by_cases hnon : x.noninitial = true
  · rw [if_pos hnon]
  obtain ⟨hproto, hicmp⟩ := h.resolve_left hnon
  simp only [adjustedProtos, List.mem_cons, List.not_mem_nil, or_false, not_or] at hproto
  rw [if_neg hnon, if_neg hicmp, if_neg hproto.1, if_neg hproto.2.1, if_neg (not_or.2 hproto.2.2),
    if_neg Bool.false_ne_true]

/-- What is translated has the transport header, with a checksum if it is UDP-Lite. -/
private theorem xlatePayload_header (hproto : proto ∈ adjustedProtos) (hicmp : x.icmpProto ∉ adjustedProtos)
    (hinitial : x.noninitial = false) (hfull : needsCsum p.2 = false)
    (h : xlatePayload g x proto false p = some r) :
    transportMin proto ≤ p.1.length ∧ (proto = 136 → getBe16 p.1 6 ≠ 0) := by
  have hne : proto ≠ x.icmpProto := fun h => hicmp (h ▸ hproto)
  unfold xlatePayload at h
  rw [hfull, hinitial, if_neg (fun h => Bool.false_ne_true h.2), if_neg Bool.false_ne_true, if_neg hne] at h
  simp only [adjustedProtos, List.mem_cons, List.not_mem_nil, or_false] at hproto
  rcases hproto with rfl | rfl | rfl | rfl
  · rw [if_pos rfl, PayloadCtx.udp] at h
    refine ⟨?_, fun h => absurd h (by decide)⟩
    by_contra hshort
    have hshort : p.1.length < 8 := Nat.not_le.1 hshort
    rw [if_pos hshort] at h
    cases h
  · rw [if_neg (by decide), if_pos rfl, PayloadCtx.tcp] at h
    refine ⟨?_, fun h => absurd h (by decide)⟩
    by_contra hshort
    have hshort : p.1.length < 20 := Nat.not_le.1 hshort
    rw [if_pos hshort] at h
    cases h
  · rw [if_neg (by decide), if_neg (by decide), if_pos (.inl rfl), PayloadCtx.dccpUdplite, if_pos rfl] at h
    refine ⟨?_, fun h => absurd h (by decide)⟩
    by_contra hshort
    have hshort : p.1.length < 12 := Nat.not_le.1 hshort
    rw [if_pos hshort] at h
    cases h
  · rw [if_neg (by decide), if_neg (by decide), if_pos (.inr rfl), PayloadCtx.dccpUdplite,
      if_neg (show (136 : Byte) ≠ 33 by decide)] at h
    have hlen : 8 ≤ p.1.length := by
      by_contra hshort
      rw [if_pos (Nat.not_le.1 hshort)] at h
      cases h
    refine ⟨hlen, fun _ hzero => ?_⟩
    rw [if_neg (Nat.not_lt.2 hlen), hfull, if_neg Bool.false_ne_true, if_pos ⟨rfl, htons_ne_zero.2 hzero⟩] at h
    cases h

/-- **What becomes of a payload** without a partial checksum: it is kept, or it is a message, or its checksum is
adjusted. -/
private theorem xlatePayload_cases (hicmp : x.icmpProto ∉ adjustedProtos) (hfull : needsCsum p.2 = false)
    (hudp : proto = 17 → x.noninitial = false → getBe16 p.1 6 ≠ 0) (h : xlatePayload g x proto false p = some r) :
    KeepsPayload x proto ∧ r = p ∨
    x.noninitial = false ∧ proto = x.icmpProto ∧ r = (put p.1 0 (x.icmp (Icmp.ofBytes p.1)).toBytes, p.2) ∨
    x.noninitial = false ∧ proto ∈ adjustedProtos ∧ transportMin proto ≤ p.1.length ∧
      r = x.adjustCsum g (if proto = 6 then 16 else 6) (cksumFix proto) p := by
  by_cases hkept : KeepsPayload x proto
  · rw [xlatePayload_kept hkept hfull] at h
    exact .inl ⟨hkept, (Option.some.inj h).symm⟩
  have hinitial : x.noninitial = false := by
    rw [← Bool.not_eq_true]
    exact fun hnon => hkept (.inl hnon)
  by_cases hproto : proto = x.icmpProto
  · rw [xlatePayload_icmp hproto hinitial hfull] at h
    exact .inr (.inl ⟨hinitial, hproto, (Option.some.inj h).symm⟩)
  · have hadjusted : proto ∈ adjustedProtos := by
      by_contra hadjusted
      exact hkept (.inr ⟨hadjusted, hproto⟩)
    obtain ⟨hmin, hlite⟩ := xlatePayload_header hadjusted hicmp hinitial hfull h
    rw [xlatePayload_adjust hadjusted hicmp hinitial hfull hmin
      fun hgiven => hgiven.elim (fun h17 => hudp h17 hinitial) hlite] at h
    exact .inr (.inr ⟨hinitial, hadjusted, hmin, (Option.some.inj h).symm⟩)

/-- The way back undoes what the way there does to a payload. -/
structure Undoes (x y : PayloadCtx) : Prop where
  hnon : y.noninitial = x.noninitial
  hicmp : x.icmpProto = 1 ∧ y.icmpProto = 58
  hadjust : residue x.adjust + residue y.adjust = 0
  hmessage : ∀ icmp : Icmp, icmp.type = 8 ∨ icmp.type = 0 →
    ∃ ck, y.icmp (x.icmp icmp) = { icmp with cksum := ck } ∧ residue ck = residue icmp.cksum

private theorem Undoes.kept (h : Undoes x y) (hproto : proto ≠ 58) (hkept : KeepsPayload x proto) :
    KeepsPayload y (if proto = 1 then 58 else proto) ∧ (if x.noninitial then none else cksumAt proto) = none := by
  by_cases hnon : x.noninitial = true
  · rw [if_pos hnon]
    exact ⟨.inl (h.hnon.trans hnon), rfl⟩
  obtain ⟨hadjusted, hicmp⟩ := hkept.resolve_left hnon
  have h1 : proto ≠ 1 := fun h1 => hicmp (h1.trans h.hicmp.1.symm)
  have h6 : proto ≠ 6 := by
    rintro rfl
    exact hadjusted (by decide)
  refine ⟨.inr ?_, ?_⟩
  · rw [if_neg h1, h.hicmp.2]
    exact ⟨hadjusted, hproto⟩
  · unfold cksumAt
    rw [if_neg hnon, if_neg h1, if_neg h6, if_neg hadjusted]

private theorem Undoes.message (h : Undoes x y) (hvhdr : needsCsum vhdr = false) (hinitial : x.noninitial = false)
    {data : List Byte} (hlen : 8 ≤ data.length) (htype : (Icmp.ofBytes data).type = 8 ∨ (Icmp.ofBytes data).type = 0) :
    ∃ q, xlatePayload g y 58 false (put data 0 (x.icmp (Icmp.ofBytes data)).toBytes, vhdr) = some q ∧
      SameBytes (some 2) data q.1 := by
  obtain ⟨ck, hback, hres⟩ := h.hmessage _ htype
  have hthere : Icmp.ofBytes (put data 0 (x.icmp (Icmp.ofBytes data)).toBytes) = x.icmp (Icmp.ofBytes data) := by
    rw [put, List.take_zero, List.nil_append]
    exact Icmp.ofBytes_toBytes _ _
  refine ⟨_, xlatePayload_icmp h.hicmp.2.symm (h.hnon.trans hinitial) hvhdr, ck, sameCksum_of_residue hres, ?_⟩
  dsimp only
  rw [hthere, hback, put_put (by rw [length_icmp, length_icmp]) (by rw [length_icmp]; omega), put_cksum hlen]

private theorem Undoes.adjusted (h : Undoes x y) (hproto : proto ∈ adjustedProtos) (hvhdr : needsCsum vhdr = false)
    (hinitial : x.noninitial = false) (hmin : transportMin proto ≤ p.1.length) :
    ∃ q, xlatePayload g y proto false
        ((x.adjustCsum g (if proto = 6 then 16 else 6) (cksumFix proto) p).1, vhdr) = some q ∧
      SameBytes (some (if proto = 6 then 16 else 6)) p.1 q.1 := by
  have hicmp : y.icmpProto ∉ adjustedProtos := by
    rw [h.hicmp.2]
    decide
  have hroom := cksum_room hmin
  obtain ⟨raw, hput, hres⟩ := adjustCsum_put g x p (if proto = 6 then 16 else 6) (residue_cksumFix proto)
  generalize hck : htons g.endian (cksumFix proto raw) = ck at hput hres
  have hlen : (put p.1 (if proto = 6 then 16 else 6) (be16 ck)).length = p.1.length :=
    length_put (by rw [length_be16]; omega)
  have hgiven : proto = 17 ∨ proto = 136 → getBe16 (put p.1 (if proto = 6 then 16 else 6) (be16 ck)) 6 ≠ 0 := by
    intro hudp
    have h6 : proto ≠ 6 := by
      rintro rfl
      revert hudp
      decide
    rw [if_neg h6] at hroom ⊢
    rw [getBe16_put _ hroom, ← hck, ne_eq, htons_ne_zero, cksumFix, if_pos hudp]
    exact nonzeroCksum_ne_zero raw
  rw [hput]
  refine ⟨_, xlatePayload_adjust hproto hicmp (h.hnon.trans hinitial) hvhdr (hlen ▸ hmin) hgiven, ?_⟩
  obtain ⟨raw', hput', hres'⟩ := adjustCsum_put g y (put p.1 (if proto = 6 then 16 else 6) (be16 ck), vhdr)
    (if proto = 6 then 16 else 6) (residue_cksumFix proto)
  rw [hput']
  refine ⟨_, sameCksum_of_residue ?_, put_put (by rw [length_be16, length_be16]) (by rw [length_be16]; omega)⟩
  -- the two changes cancel
  rw [hres', getBe16_put _ hroom, hres, add_assoc, ← mul_add, h.hadjust, mul_zero, add_zero]

/-- **A payload there and back.** -/
theorem Undoes.payload (h : Undoes x y) (hproto : proto ≠ 58) (hfull : needsCsum p.2 = false)
    (hvhdr : needsCsum vhdr = false)
    (hmessage : proto = 1 → 8 ≤ p.1.length ∧ ((Icmp.ofBytes p.1).type = 8 ∨ (Icmp.ofBytes p.1).type = 0))
    (hudp : proto = 17 → x.noninitial = false → getBe16 p.1 6 ≠ 0) (hx : xlatePayload g x proto false p = some r) :
    ∃ q, xlatePayload g y (if proto = 1 then 58 else proto) false (r.1, vhdr) = some q ∧
      SameBytes (if x.noninitial then none else cksumAt proto) p.1 q.1 := by
  have hicmp : x.icmpProto ∉ adjustedProtos := by
    rw [h.hicmp.1]
    decide
  rcases xlatePayload_cases hicmp hfull hudp hx with ⟨hkept, rfl⟩ | ⟨hinitial, h1, rfl⟩ |
    ⟨hinitial, hadjusted, hmin, rfl⟩
  · obtain ⟨hback, hnone⟩ := h.kept hproto hkept
    rw [hnone]
    exact ⟨_, xlatePayload_kept hback hvhdr, rfl⟩
  · rw [h.hicmp.1] at h1
    obtain ⟨hlen, htype⟩ := hmessage h1
    rw [hinitial, if_neg Bool.false_ne_true, if_pos h1, h1]
    exact h.message hvhdr hinitial hlen htype
  · have h1 : proto ≠ 1 := (adjusted_ne_icmp hadjusted).1
    have hat : cksumAt proto = some (if proto = 6 then 16 else 6) := by
      unfold cksumAt
      rw [if_neg h1, if_pos hadjusted]
      split <;> rfl
    rw [hinitial, if_neg Bool.false_ne_true, if_neg h1, hat]
    exact h.adjusted hadjusted hvhdr hinitial hmin

end Payload

/-- The types of an echo message there and back, and its checksum. -/
private theorem icmp_back (e : Endian) {ck ck' : BitVec 16} (h : residue ck + residue ck' = 0) {icmp : Icmp}
    (htype : icmp.type = 8 ∨ icmp.type = 0) :
    ∃ c, icmp6to4 e ck' (icmp4to6 e ck icmp) = { icmp with cksum := c } ∧ residue c = residue icmp.cksum := by
  have hthere : (icmp4to6 e ck icmp).type = if icmp.type = 8 then 128 else 129 := rfl
  have htype6 : (icmp4to6 e ck icmp).type = 128 ∨ (icmp4to6 e ck icmp).type = 129 := by
    rw [hthere]
    split
    · exact .inl rfl
    · exact .inr rfl
  obtain ⟨c, hc⟩ : ∃ c, icmp6to4 e ck' (icmp4to6 e ck icmp) = { icmp with cksum := c } := by
    refine ⟨_, Icmp.mk.injEq .. |>.mpr ⟨?_, rfl, rfl, rfl⟩⟩
    rw [hthere]
    rcases htype with h8 | h0
    · rw [h8]
      rfl
    · rw [h0]
      rfl
  have hback := (sumWords_icmp6to4 e ck' [] htype6).1
  rw [sumWords_icmp4to6 e ck [] htype, hc, sumWords_message, sumWords_message] at hback
  push_cast at hback
  refine ⟨c, hc, ?_⟩
  unfold residue at h hback ⊢
  linear_combination hback + scale e * h

/-- **The way back undoes the way there**, between the same addresses. -/
theorem undoes {p : Pkt4} {q : Pkt6} {ip6 : Ip6} {ip4 : Ip4} (hsrc : q.ip6.src = ip6.src)
    (hdest : q.ip6.dest = ip6.dest) (hsrc4 : ip4.src = p.ip4.src) (hdest4 : ip4.dest = p.ip4.dest)
    (hnon : q.noninitial = p.noninitial) (hp : p.headerLen + p.data.length = p.ip4.length.toNat)
    (hq : q.headerLen + p.data.length = q.ip6.payloadLength.toNat) :
    Undoes (payloadCtx4to6 g p ip6) (payloadCtx6to4 g q ip4) where
  hnon := hnon
  hicmp := ⟨rfl, rfl⟩
  hadjust := by
    rw [show (payloadCtx4to6 g p ip6).adjust = ~~~convertCksum g.endian ip6 p.ip4 from rfl,
      show (payloadCtx6to4 g q ip4).adjust = convertCksum g.endian q.ip6 ip4 from rfl, residue_not,
      residue_convertCksum, residue_convertCksum, hsrc, hdest, hsrc4, hdest4]
    ring
  hmessage icmp htype := by
    refine icmp_back g.endian ?_ htype
    rw [residue_not, residue_ip6Checksum, residue_ip6Checksum, hsrc, hdest, messageLen hp, messageLen hq]
    ring

/-- A payload without a partial checksum has the virtio header it had. -/
theorem xlatePayload4to6_vhdr {p r : Pkt4} {ip6 : Ip6} (hfull : needsCsum p.vhdr = false)
    (hudp : p.dataProto = 17 → p.noninitial = false → getBe16 p.data 6 ≠ 0)
    (hr : xlatePayload4to6 g p ip6 false = some r) : r.vhdr = p.vhdr := by
  have hicmp : (payloadCtx4to6 g p ip6).icmpProto ∉ adjustedProtos := show (1 : Byte) ∉ adjustedProtos by decide
  have hnon : (payloadCtx4to6 g p ip6).noninitial = p.noninitial := rfl
  obtain ⟨r', hx, rfl⟩ := Option.map_eq_some_iff.1 hr
  rcases xlatePayload_cases hicmp hfull (by rw [hnon]; exact hudp) hx with ⟨-, rfl⟩ | ⟨-, -, rfl⟩ | ⟨-, -, -, rfl⟩ <;>
    rfl

/-- **The payload of a packet there and back.** -/
theorem payload_back {p r : Pkt4} {q : Pkt6} {ip6 : Ip6} {ip4 : Ip4}
    (hundoes : Undoes (payloadCtx4to6 g p ip6) (payloadCtx6to4 g q ip4)) (hproto : p.dataProto ≠ 58)
    (hfull : needsCsum p.vhdr = false) (hvhdr : needsCsum q.vhdr = false)
    (hmessage : p.dataProto = 1 → 8 ≤ p.data.length ∧ (p.icmp.type = 8 ∨ p.icmp.type = 0))
    (hudp : p.dataProto = 17 → p.noninitial = false → getBe16 p.data 6 ≠ 0)
    (hr : xlatePayload4to6 g p ip6 false = some r) (hqproto : q.dataProto = if p.dataProto = 1 then 58 else p.dataProto)
    (hqdata : q.data = r.data) :
    ∃ s, xlatePayload6to4 g q ip4 false = some s ∧
      SameBytes (if p.noninitial then none else cksumAt p.dataProto) p.data s.data := by
  have hnon : (payloadCtx4to6 g p ip6).noninitial = p.noninitial := rfl
  obtain ⟨r', hx, rfl⟩ := Option.map_eq_some_iff.1 hr
  obtain ⟨s, hs, hsame⟩ := hundoes.payload hproto hfull hvhdr hmessage (by rw [hnon]; exact hudp) hx
  rw [hnon] at hsame
  refine ⟨{ q with data := s.1, vhdr := s.2 }, ?_, hsame⟩
  unfold xlatePayload6to4
  rw [hqproto, hqdata, hs]
  rfl

end Tayga
