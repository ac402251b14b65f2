import Tayga.DfLaw

/-!
# Quoted packets

The two functions that translate an ICMP error, said once and for all: the packet an error quotes (`quote4`, `quote6`),
when the error is translated (`TranslatesError4`, `TranslatesError6`), and that it is then one packet, and otherwise
none (`written_xlate4to6IcmpError`, `written_xlate6to4IcmpError`).
-/

namespace Tayga

open Program

variable {g : Gcfg} {ans : (op : PktOp) → op.Ans} {α β : Type}

/-! ### Programs that only send certain packets -/

/-- The operation sends no packet and virtio header outside `P`. -/
def Sends (P : Option VnetHdr → List Byte → Prop) : PktOp → Prop
  | .write vhdr packet => P vhdr packet
  | _ => True

/-- Whatever the answers, every packet sent is one of `P`, with its virtio header. -/
def OnlySends (P : Option VnetHdr → List Byte → Prop) (prog : PktProg α) : Prop := prog.Asks (Sends P) fun _ => True

namespace OnlySends

variable {P : Option VnetHdr → List Byte → Prop}

theorem done (a : α) : OnlySends P (.done a) := trivial

theorem emit {vhdr : Option VnetHdr} {packet : List Byte} (h : P vhdr packet) : OnlySends P (emit vhdr packet) :=
  ⟨h, fun _ => trivial⟩

theorem bind {prog : PktProg α} {f : α → PktProg β} (hprog : OnlySends P prog) (hf : ∀ a, OnlySends P (f a)) :
    OnlySends P (prog >>= f) :=
  Asks.bind hprog fun a _ => hf a

theorem ite {c : Prop} [Decidable c] {p q : PktProg α} (hp : c → OnlySends P p) (hq : ¬c → OnlySends P q) :
    OnlySends P (if c then p else q) :=
  Asks.ite hp hq

theorem statsDrop (len : Nat) : OnlySends P (statsDrop len) := ⟨trivial, fun _ => trivial⟩

theorem mono {P' : Option VnetHdr → List Byte → Prop} {prog : PktProg α} (h : OnlySends P prog)
    (hP : ∀ vhdr packet, P vhdr packet → P' vhdr packet) : OnlySends P' prog := by
  refine Asks.mono h (fun op hop => ?_) fun _ _ => trivial
  cases op with
  | write vhdr packet => exact hP vhdr packet hop
  | _ => trivial

/-- A program that writes nothing. -/
theorem of_silent {prog : PktProg α} (h : OnlyWrites (fun _ => False) prog) : OnlySends P prog := by
  refine Asks.mono h (fun op hop => ?_) fun _ _ => trivial
  cases op with
  | write vhdr packet => exact hop.elim
  | _ => trivial

end OnlySends

/-- The packet a `write` writes, with its virtio header. -/
def PktOp.sent : PktOp → Option (Option VnetHdr × List Byte)
  | .write vhdr packet => some (vhdr, packet)
  | _ => none

/-- The packets written when every operation has its fixed answer, with their virtio headers. -/
def sent (ans : (op : PktOp) → op.Ans) (prog : PktProg α) : List (Option VnetHdr × List Byte) :=
  (prog.asked ans).filterMap PktOp.sent

theorem OnlySends.mem {P : Option VnetHdr → List Byte → Prop} {prog : PktProg α} (h : OnlySends P prog)
    {out : Option VnetHdr × List Byte} (hmem : out ∈ sent ans prog) : P out.1 out.2 := by
  obtain ⟨op, hop, hout⟩ := List.mem_filterMap.1 hmem
  have hsends := Asks.asked h ans op hop
  cases op with
  | write vhdr packet =>
    cases hout
    exact hsends
  | _ => cases hout

theorem OnlySends.mem_written {P : Option VnetHdr → List Byte → Prop} {prog : PktProg α} (h : OnlySends P prog)
    {packet : List Byte} (hmem : packet ∈ written ans prog) : ∃ vhdr, P vhdr packet := by
  obtain ⟨op, hop, hout⟩ := List.mem_filterMap.1 hmem
  have hsends := Asks.asked h ans op hop
  cases op with
  | write vhdr packet =>
    cases hout
    exact ⟨vhdr, hsends⟩
  | _ => cases hout

/-! ### What the parsers accept -/

/-- The packet is a fragment. -/
def Pkt4.isFragment (p : Pkt4) : Bool := p.ip4.flagsOffset &&& (ip4FMask ||| ip4FMf) ≠ 0

/-- The packet is a fragment without the transport header. -/
def Pkt4.noninitial (p : Pkt4) : Bool := p.ip4.flagsOffset &&& ip4FMask ≠ 0

/-- The packet behind its IPv4 header, as long as the header says. -/
def ip4Data (d : List Byte) : List Byte :=
  (d.take (Ip4.ofBytes d).length.toNat).drop (((Ip4.ofBytes d).verIhl &&& 0x0f).toNat * 4)

/-- A packet as `parse_ip4` returns it. -/
structure Parsed4 (d : List Byte) (vhdr : Option VnetHdr) (em : Bool) (p : Pkt4) : Prop where
  hip4 : p.ip4 = Ip4.ofBytes d
  hdata : p.data = ip4Data d
  hmin : 20 ≤ p.headerLen
  hlen : p.headerLen + p.data.length ≤ p.ip4.length.toNat
  hproto : p.dataProto = p.ip4.proto
  hvhdr : p.vhdr = vhdr
  hicmp : p.dataProto = 1 → 8 ≤ p.data.length ∧ (em = false → p.isFragment = false)
  hicmp6 : p.dataProto ≠ 58

theorem parsed4_of_parseIp4 {d : List Byte} {vhdr : Option VnetHdr} {em : Bool} {p : Pkt4}
    (h : parseIp4 d vhdr em = .ok p) : Parsed4 d vhdr em p := by
  unfold parseIp4 at h
  dsimp only at h
  split at h
  · cases h
  split at h
  · cases h
  next hlen hvalid =>
  rw [not_or, not_or, not_or, not_or] at hvalid
  obtain ⟨-, hmin, hfit, htotal, -⟩ := hvalid
  have hdrop : ip4Data d = (d.take (Ip4.ofBytes d).length.toNat).drop (((Ip4.ofBytes d).verIhl &&& 0x0f).toNat * 4) :=
    rfl
  generalize hihl : ((Ip4.ofBytes d).verIhl &&& 0x0f).toNat * 4 = ihl at h hmin hfit htotal hdrop
  have hip4 : ∀ data vhdr, (⟨d.take ihl, data, (Ip4.ofBytes d).proto, vhdr⟩ : Pkt4).ip4 = Ip4.ofBytes d :=
    fun _ _ => Ip4.ofBytes_take (by omega) (by omega)
  have hheader : 20 ≤ (d.take ihl).length := by
    rw [List.length_take]
    omega
  have hdata : (d.take ihl).length + ((d.take (Ip4.ofBytes d).length.toNat).drop ihl).length ≤
      (Ip4.ofBytes d).length.toNat := by
    rw [List.length_drop, List.length_take, List.length_take]
    omega
  split at h
  · next hicmp =>
    split at h
    · cases h
    next hfrag =>
    split at h
    · cases h
    next hshort =>
    cases h
    refine ⟨hip4 _ _, hdrop.symm, hheader, ?_, by rw [hip4], rfl, fun _ => ⟨Nat.not_lt.1 hshort, fun hem => ?_⟩,
      fun h => ?_⟩
    · rw [hip4]
      exact hdata
    · have hzero : ¬(Ip4.ofBytes d).flagsOffset &&& (ip4FMask ||| ip4FMf) ≠ 0 := fun h => hfrag ⟨by simp [hem], h⟩
      unfold Pkt4.isFragment
      rw [hip4]
      exact decide_eq_false hzero
    · dsimp only at hicmp h
      rw [hicmp] at h
      exact absurd h (by decide)
  · next hicmp =>
    split at h
    · cases h
    next hrefused =>
    split at h
    · cases h
    split at h
    · cases h
    cases h
    refine ⟨hip4 _ _, hdrop.symm, hheader, ?_, by rw [hip4], rfl, fun h => absurd h hicmp, fun h => ?_⟩
    · rw [hip4]
      exact hdata
    · exact hrefused (.inr (.inr (.inr (.inl h))))

/-- The header is as long as it says. -/
theorem parseIp4_headerLen {d : List Byte} {vhdr : Option VnetHdr} {em : Bool} {p : Pkt4}
    (h : parseIp4 d vhdr em = .ok p) : p.headerLen = (p.ip4.verIhl &&& 0x0f).toNat * 4 := by
  rw [(parsed4_of_parseIp4 h).hip4]
  unfold parseIp4 at h
  dsimp only at h
  split at h
  · cases h
  split at h
  · cases h
  next hlen hvalid =>
  have hheader : (d.take (((Ip4.ofBytes d).verIhl &&& 0x0f).toNat * 4)).length =
      ((Ip4.ofBytes d).verIhl &&& 0x0f).toNat * 4 := List.length_take_of_le (by omega)
  split at h
  · split at h
    · cases h
    split at h
    · cases h
    obtain rfl := Except.ok.inj h
    exact hheader
  split at h
  · cases h
  split at h
  · cases h
  split at h
  · cases h
  obtain rfl := Except.ok.inj h
  exact hheader

/-! ### What is written while the mapper is asked -/

theorem written_mapIp4ToIp6 {α : Type} (addr4 : In4) (f : Except Error In6 → PktProg α) :
    written ans (.call (.mapIp4ToIp6 addr4) f) = written ans (f (ans (.mapIp4ToIp6 addr4))) := rfl

theorem written_mapIp6ToIp4 {α : Type} (addr6 : In6) (dynAlloc : Bool) (f : Except Error In4 → PktProg α) :
    written ans (.call (.mapIp6ToIp4 addr6 dynAlloc) f) = written ans (f (ans (.mapIp6ToIp4 addr6 dynAlloc))) := rfl

/-! ### Payloads of quoted packets -/

theorem length_put {d s : List Byte} {i : Nat} (h : i + s.length ≤ d.length) : (put d i s).length = d.length := by
  unfold put
  rw [List.length_append, List.length_append, List.length_take, List.length_drop]
  omega

theorem length_putU16 {e : Endian} {d : List Byte} {i : Nat} {v : BitVec 16} (h : i + 2 ≤ d.length) :
    (putU16 e d i v).length = d.length :=
  length_put h

/-- The payload is as long as before, and what comes before a checksum is the same. -/
def SameFront (d d' : List Byte) : Prop := d'.length = d.length ∧ ∀ i < 6, getU8 d' i = getU8 d i

theorem SameFront.refl (d : List Byte) : SameFront d d := ⟨rfl, fun _ _ => rfl⟩

theorem SameFront.trans {d d' d'' : List Byte} (h : SameFront d d') (h' : SameFront d' d'') : SameFront d d'' :=
  ⟨h'.1.trans h.1, fun i hi => (h'.2 i hi).trans (h.2 i hi)⟩

private theorem sameFront_put {d s : List Byte} {i : Nat} (hi : 6 ≤ i) (hlen : i + s.length ≤ d.length) :
    SameFront d (put d i s) :=
  ⟨length_put hlen, fun _ hk => getU8_put (by omega) (by omega)⟩

private theorem sameFront_putU16 {e : Endian} {d : List Byte} {i : Nat} {v : BitVec 16} (hi : 6 ≤ i)
    (hlen : i + 2 ≤ d.length) : SameFront d (putU16 e d i v) :=
  sameFront_put hi hlen

namespace PayloadCtx

variable {x : PayloadCtx} {em : Bool} {p q : Payload}

private theorem partialCsum_front {proto : Byte} {csumOff : Nat} {fix : BitVec 16 → BitVec 16} (hoff : 6 ≤ csumOff)
    (hlen : csumOff + 2 ≤ p.1.length) : SameFront p.1 (x.partialCsum g proto csumOff fix p).1 := by
  unfold partialCsum
  split
  · have hzero : SameFront p.1 (putU16 g.endian p.1 csumOff 0) := sameFront_putU16 hoff hlen
    exact hzero.trans (sameFront_putU16 hoff (by rw [hzero.1]; exact hlen))
  · exact sameFront_put hoff hlen

private theorem udp_front (h : x.udp g em p = some q) : SameFront p.1 q.1 := by
  unfold udp at h
  split at h
  · split at h
    · cases h
      exact .refl _
    · cases h
  next hlen =>
  split at h
  · dsimp only at h
    split at h
    · cases h
    split at h
    · cases h
    cases h
    exact partialCsum_front (by omega) (by omega)
  split at h
  · split at h
    · split at h <;> cases h
      exact .refl _
    · split at h <;> cases h
      · exact .refl _
      · exact sameFront_putU16 (by omega) (by omega)
  · cases h
    exact sameFront_putU16 (by omega) (by omega)

private theorem tcp_front (h : x.tcp g em p = some q) : SameFront p.1 q.1 := by
  unfold tcp at h
  split at h
  · split at h
    · cases h
      exact .refl _
    · cases h
  next hlen =>
  split at h
  · dsimp only at h
    split at h
    · cases h
    split at h
    · cases h
    cases h
    exact partialCsum_front (by omega) (by omega)
  · cases h
    exact sameFront_putU16 (by omega) (by omega)

private theorem dccpUdplite_front {proto : Byte} (h : x.dccpUdplite g proto em p = some q) : SameFront p.1 q.1 := by
  unfold dccpUdplite at h
  have hmin : 8 ≤ if proto = 33 then 12 else 8 := by split <;> omega
  generalize (if proto = 33 then 12 else 8) = n at h hmin
  split at h
  · split at h
    · cases h
      exact .refl _
    · cases h
  next hlen =>
  split at h
  · cases h
  split at h
  · split at h
    · cases h
      exact .refl _
    · cases h
  · cases h
    exact sameFront_putU16 (by omega) (by omega)

end PayloadCtx

/-- **Translating a payload keeps what identifies its flow**, unless it is an ICMP message, which gets a new header. -/
theorem xlatePayload_front {x : PayloadCtx} {proto : Byte} {em : Bool} {p q : Payload}
    (h : xlatePayload g x proto em p = some q) :
    (x.noninitial = true ∨ proto ≠ x.icmpProto) ∧ SameFront p.1 q.1 ∨
    x.noninitial = false ∧ proto = x.icmpProto ∧ q.1 = put p.1 0 (x.icmp (Icmp.ofBytes p.1)).toBytes := by
  unfold xlatePayload at h
  split at h
  · cases h
  split at h
  · next hnon =>
    cases h
    exact .inl ⟨.inl hnon, .refl _⟩
  next hnon =>
  split at h
  · next hproto =>
    cases h
    exact .inr ⟨by simpa using hnon, hproto, rfl⟩
  next hproto =>
  refine .inl ⟨.inr hproto, ?_⟩
  split at h
  · exact PayloadCtx.udp_front h
  split at h
  · exact PayloadCtx.tcp_front h
  split at h
  · exact PayloadCtx.dccpUdplite_front h
  split at h
  · cases h
  · cases h
    exact .refl _

/-- **Translating a payload keeps its length.** -/
theorem length_xlatePayload {x : PayloadCtx} {proto : Byte} {em : Bool} {p q : Payload}
    (h : xlatePayload g x proto em p = some q) (hicmp : proto = x.icmpProto → 8 ≤ p.1.length) :
    q.1.length = p.1.length := by
  rcases xlatePayload_front h with ⟨-, hfront⟩ | ⟨-, hproto, hdata⟩
  · exact hfront.1
  · rw [hdata]
    exact length_put (hicmp hproto)

/-- UDP without a checksum, when it is to be dropped. -/
def DropsUdp (g : Gcfg) (proto : Byte) (data : List Byte) : Prop :=
  proto = 17 ∧ 8 ≤ data.length ∧ getU16 g.endian data 6 = 0 ∧ g.udpCksumMode = .drop

/-- **The payload of a quoted packet is translated**, UDP without a checksum aside. -/
theorem xlatePayload_quoted {x : PayloadCtx} {proto : Byte} {data : List Byte} (hicmp : x.icmpProto ≠ 17) :
    xlatePayload g x proto true (data, none) = none ↔ x.noninitial = false ∧ DropsUdp g proto data := by
  have hneeds : needsCsum none = false := rfl
  unfold xlatePayload
  rw [hneeds, if_neg (by simp)]
  by_cases hnon : x.noninitial
  · rw [if_pos hnon]
    simp [hnon]
  rw [if_neg hnon]
  have hnon : x.noninitial = false := by simpa using hnon
  by_cases hproto : proto = x.icmpProto
  · rw [if_pos hproto]
    refine iff_of_false (by simp) fun h => hicmp ?_
    rw [← hproto]
    exact h.2.1
  rw [if_neg hproto]
  by_cases hudp : proto = 17
  · rw [if_pos hudp, and_iff_right hnon]
    unfold PayloadCtx.udp DropsUdp
    dsimp only
    rw [hneeds, and_iff_right hudp]
    by_cases hlen : data.length < 8
    · rw [if_pos hlen, if_pos rfl]
      exact iff_of_false (by simp) fun h => by omega
    rw [if_neg hlen, if_neg (by decide), and_iff_right (Nat.not_lt.1 hlen)]
    by_cases hzero : getU16 g.endian data 6 = 0
    · rw [if_pos hzero, if_pos rfl, and_iff_right hzero]
      by_cases hmode : g.udpCksumMode = .drop
      · rw [if_pos hmode]
        exact iff_of_true rfl hmode
      · rw [if_neg hmode]
        exact iff_of_false (by simp) hmode
    · rw [if_neg hzero]
      exact iff_of_false (by simp) fun h => hzero h.1
  rw [if_neg hudp]
  refine iff_of_false ?_ fun h => hudp h.2.1
  split
  · unfold PayloadCtx.tcp
    dsimp only
    split
    · simp
    · simp [hneeds]
  split
  · unfold PayloadCtx.dccpUdplite
    dsimp only
    rw [hneeds]
    generalize (if proto = 33 then 12 else 8) = n
    by_cases hlen : data.length < n
    · rw [if_pos hlen]
      simp
    · rw [if_neg hlen, if_neg Bool.false_ne_true]
      split <;> simp
  · simp

/-! ### Errors about IPv4 packets -/

/-- The length of the fragment header a packet gets in IPv6. -/
def Pkt4.fragLen (p : Pkt4) : Nat := if p.isFragment then 8 else 0

/-- The length an ICMP error gives the packet it quotes. -/
def emLen4 (icmp : Icmp) : Nat :=
  if icmp.type = 3 ∨ icmp.type = 11 ∨ icmp.type = 12 then (icmp.word >>> 14 &&& 0x3fc).toNat else 0

/-- The packet an ICMP error quotes, unless that is an ICMP error itself. -/
def quote4 (p : Pkt4) : Option Pkt4 :=
  (emData (emLen4 p.icmp) (p.data.drop 8)).bind fun d => match parseIp4 d none true with
    | .error _ => none
    | .ok em => if em.dataProto = 1 ∧ em.icmp.type ≠ 8 then none else some em

/-- A quoted packet with no more data than fits the translated error. -/
def emCut4 (em : Pkt4) : Pkt4 := { em with data := em.data.take (mtuMin - 40 * 2 - 8 - em.fragLen) }

/-- The IPv6 header of a quoted packet. -/
def emIp6 (em : Pkt4) (src dest : In6) : Ip6 :=
  let payloadLen := em.ip4.length.toNat - em.headerLen + em.fragLen
  xlateHeader4to6 em src dest (if 65535 < payloadLen then 65535 else payloadLen)

/-- The headers of a quoted packet in IPv6. -/
def emHeader4to6 (em : Pkt4) (src dest : In6) : List Byte :=
  let off := em.ip4.flagsOffset
  let ip6 := emIp6 em src dest
  let flags := (off &&& ip4FMask) <<< 3 ||| (if off &&& ip4FMf ≠ 0 then ip6FMf else 0)
  let frag : Ip6Frag := ⟨ip6.nextHeader, 0, flags, em.ip4.ident.setWidth 32⟩
  if em.isFragment then { ip6 with nextHeader := 44 }.toBytes ++ frag.toBytes else ip6.toBytes

/-- The rest of `xlate_4to6_icmp_error`, with the quoted packet `em`. -/
def xlate4to6Quoted (g : Gcfg) (p em : Pkt4) : PktProg Unit := do
  match ← mapEm4to6 em with
  | none => return
  | some (src, dest) => match xlateIcmpError4to6 g p.icmp em.ip4.length.toNat with
    | none => return
    | some icmp => match xlatePayload4to6 g (emCut4 em) (emIp6 em src dest) true with
      | none => return
      | some q => xlate4to6IcmpErrorEmit g p icmp (emHeader4to6 em src dest) q.data

private theorem mapEm4to6_congr {p q : Pkt4} (h : p.ip4 = q.ip4) : mapEm4to6 p = mapEm4to6 q := by
  unfold mapEm4to6
  rw [h]
  refine congrArg _ (funext fun r => ?_)
  cases r with
  | error e => rfl
  | ok src =>
    refine congrArg (Program.call _) (funext fun r => ?_)
    cases r <;> rfl

theorem xlate4to6IcmpError_eq (g : Gcfg) (p : Pkt4) :
    xlate4to6IcmpError g p = (quote4 p).elim (.done ()) (xlate4to6Quoted g p) := by
  unfold xlate4to6IcmpError quote4
  have hemLen : (if p.icmp.type = 3 ∨ p.icmp.type = 11 ∨ p.icmp.type = 12 then
    (p.icmp.word >>> 14 &&& 0x3fc).toNat else 0) = emLen4 p.icmp := rfl
  dsimp only
  rw [hemLen]
  rcases emData (emLen4 p.icmp) (p.data.drop 8) with _ | d
  · rfl
  rw [Option.bind_some]
  dsimp only
  rcases parseIp4 d none true with n | em
  · rfl
  dsimp only
  by_cases hicmp : em.dataProto = 1 ∧ em.icmp.type ≠ 8
  · rw [if_pos hicmp, if_pos hicmp]
    rfl
  rw [if_neg hicmp, if_neg hicmp]
  have hfrag : em.isFragment = decide (em.ip4.flagsOffset &&& (ip4FMask ||| ip4FMf) ≠ 0) := rfl
  have hlen : (if em.ip4.flagsOffset &&& (ip4FMask ||| ip4FMf) ≠ 0 then 8 else 0) = em.fragLen := by
    simp [Pkt4.fragLen, Pkt4.isFragment]
  have hmap : ∀ data, mapEm4to6 { em with data := data } = mapEm4to6 em := fun _ => mapEm4to6_congr rfl
  rw [hlen, hmap]
  refine congrArg (mapEm4to6 em >>= ·) (funext fun r => ?_)
  rcases r with _ | ⟨src, dest⟩
  · rfl
  show (match xlateIcmpError4to6 g p.icmp em.ip4.length.toNat with
    | none => _
    | some icmp => _) = _
  dsimp only
  rcases xlateIcmpError4to6 g p.icmp em.ip4.length.toNat with _ | icmp
  · rfl
  show (match xlatePayload4to6 g (emCut4 em) (emIp6 em src dest) true with
    | none => _
    | some icmp => _) = _
  dsimp only
  rcases xlatePayload4to6 g (emCut4 em) (emIp6 em src dest) true with _ | q
  · rfl
  simp only [emHeader4to6, hfrag, decide_eq_true_eq]
  rfl

/-- The mapper has all that it takes to translate an ICMP error, and neither its type nor the quoted packet is one that
the translator does not translate. -/
def TranslatesError4 (g : Gcfg) (ans : (op : PktOp) → op.Ans) (p : Pkt4) : Prop :=
  ∃ em, quote4 p = some em ∧ Mapped ans em.ip4.src ∧ Mapped ans em.ip4.dest ∧
    (xlateIcmpError4to6 g p.icmp em.ip4.length.toNat).isSome ∧
    ¬(em.noninitial = false ∧ DropsUdp g em.dataProto (emCut4 em).data) ∧ Mapped ans p.ip4.dest

/-- The packet `xlate_4to6_icmp_error` writes, with the addresses `src` and `dest`. -/
def errorPacket4to6 (g : Gcfg) (p : Pkt4) (src dest : In6) (icmp : Icmp) (emHeader emData : List Byte) : List Byte :=
  let ip6 := xlateHeader4to6 p src dest (8 + emHeader.length + emData.length)
  let ip6 := { ip6 with hopLimit := ip6.hopLimit - 1 }
  let cksum := onesAdd (ip6Checksum g.endian ip6 (ip6.payloadLength.setWidth 32) 58)
    (onesAdd (ipChecksum g.endian (icmp.toBytes ++ emHeader)) (ipChecksum g.endian emData))
  ip6.toBytes ++ { icmp with cksum := htons g.endian cksum }.toBytes ++ emHeader ++ emData

/-- An error translated to IPv6, about a quoted packet. -/
inductive ErrorTo6 (g : Gcfg) (p : Pkt4) : List Byte → Prop where
  | about {em : Pkt4} {icmp : Icmp} {src dest : In6} {q : Pkt4} (emSrc emDest : In6) (hquote : quote4 p = some em)
      (hicmp : xlateIcmpError4to6 g p.icmp em.ip4.length.toNat = some icmp)
      (hpayload : xlatePayload4to6 g (emCut4 em) (emIp6 em emSrc emDest) true = some q) :
      ErrorTo6 g p (errorPacket4to6 g p src dest icmp (emHeader4to6 em emSrc emDest) q.data)

theorem xlate4to6IcmpError_errorTo6 (p : Pkt4) :
    OnlySends (fun out packet => out = none ∧ ErrorTo6 g p packet) (xlate4to6IcmpError g p) := by
  rw [xlate4to6IcmpError_eq]
  rcases hquote : quote4 p with _ | em
  · trivial
  refine (OnlySends.of_silent mapEm4to6_writes).bind fun r => ?_
  rcases r with _ | ⟨src, dest⟩
  · trivial
  dsimp only
  rcases hicmp : xlateIcmpError4to6 g p.icmp em.ip4.length.toNat with _ | icmp
  · trivial
  dsimp only
  rcases hpayload : xlatePayload4to6 g (emCut4 em) (emIp6 em src dest) true with _ | q
  · trivial
  refine ⟨trivial, fun r => ⟨trivial, fun r => ?_⟩⟩
  rcases r with _ | dest'
  · trivial
  · exact ⟨⟨rfl, .about src dest hquote hicmp hpayload⟩, fun _ => trivial⟩

private theorem emCut4_payload {em : Pkt4} {d : List Byte} (h : parseIp4 d none true = .ok em) (ip6 : Ip6) :
    xlatePayload4to6 g (emCut4 em) ip6 true = none ↔
    em.noninitial = false ∧ DropsUdp g em.dataProto (emCut4 em).data := by
  have hvhdr : em.vhdr = none := (parsed4_of_parseIp4 h).hvhdr
  unfold xlatePayload4to6
  rw [Option.map_eq_none_iff, show (emCut4 em).vhdr = none from hvhdr,
    xlatePayload_quoted (show (1 : Byte) ≠ 17 by decide)]
  rfl

theorem quote4_eq_some {p em : Pkt4} (h : quote4 p = some em) :
    (∃ d, emData (emLen4 p.icmp) (p.data.drop 8) = some d ∧ parseIp4 d none true = .ok em) ∧
    ¬(em.dataProto = 1 ∧ em.icmp.type ≠ 8) := by
  obtain ⟨d, hdata, hd⟩ := Option.bind_eq_some_iff.1 h
  rcases hparse : parseIp4 d none true with n | em'
  · rw [hparse] at hd
    cases hd
  rw [hparse] at hd
  dsimp only at hd
  split at hd
  · cases hd
  next hicmp =>
  cases hd
  exact ⟨⟨d, hdata, hparse⟩, hicmp⟩

private theorem mapEm4to6_written (p : Pkt4) : written ans (mapEm4to6 p) = [] := by
  have h : OnlyWrites (fun _ => False) (mapEm4to6 p) := mapEm4to6_writes
  exact List.eq_nil_iff_forall_not_mem.2 fun _ hmem => h.mem hmem

private theorem mapEm4to6_answer (p : Pkt4) (src dest : In6) : (mapEm4to6 p).answer ans = some (src, dest) ↔
    ans (.mapIp4ToIp6 p.ip4.src) = .ok src ∧ ans (.mapIp4ToIp6 p.ip4.dest) = .ok dest := by
  unfold mapEm4to6
  rw [answer_call]
  rcases ans (.mapIp4ToIp6 p.ip4.src) with e | src'
  · simp
  dsimp only
  rw [answer_call]
  rcases ans (.mapIp4ToIp6 p.ip4.dest) with e | dest'
  · simp
  · simp

private theorem xlate4to6IcmpErrorEmit_written (p : Pkt4) (icmp : Icmp) (emHeader emData : List Byte) :
    written ans (xlate4to6IcmpErrorEmit g p icmp emHeader emData) ≠ [] ↔ Mapped ans p.ip4.dest := by
  unfold xlate4to6IcmpErrorEmit Mapped
  rw [written_mapIp4ToIp6, written_mapIp4ToIp6]
  rcases ans (.mapIp4ToIp6 p.ip4.dest) with e | dest
  · simp
  · exact iff_of_true (List.cons_ne_nil _ _) ⟨dest, rfl⟩

/-- **An ICMP error is translated**, or nothing is written. -/
theorem xlate4to6IcmpError_written (p : Pkt4) :
    written ans (xlate4to6IcmpError g p) ≠ [] ↔ TranslatesError4 g ans p := by
  rw [xlate4to6IcmpError_eq]
  unfold TranslatesError4
  rcases hquote : quote4 p with _ | em
  · simp
  obtain ⟨⟨d, -, hparse⟩, -⟩ := quote4_eq_some hquote
  rw [Option.elim_some]
  unfold xlate4to6Quoted
  rw [written_bind, mapEm4to6_written, List.nil_append]
  rcases hmap : (mapEm4to6 em).answer ans with _ | ⟨src, dest⟩
  · refine iff_of_false (by simp) ?_
    rintro ⟨em', hem', ⟨src, hsrc⟩, ⟨dest, hdest⟩, -⟩
    cases hem'
    rw [(mapEm4to6_answer em src dest).2 ⟨hsrc, hdest⟩] at hmap
    cases hmap
  obtain ⟨hsrc, hdest⟩ := (mapEm4to6_answer em src dest).1 hmap
  dsimp only
  rcases hicmp : xlateIcmpError4to6 g p.icmp em.ip4.length.toNat with _ | icmp
  · refine iff_of_false (by simp) ?_
    rintro ⟨em', hem', -, -, htype, -⟩
    cases hem'
    rw [hicmp] at htype
    cases htype
  dsimp only
  have hpayload := emCut4_payload (g := g) hparse (emIp6 em src dest)
  rcases hq : xlatePayload4to6 g (emCut4 em) (emIp6 em src dest) true with _ | q
  · refine iff_of_false (by simp) ?_
    rintro ⟨em', hem', -, -, -, hkept, -⟩
    cases hem'
    exact hkept (hpayload.1 hq)
  rw [hq] at hpayload
  dsimp only
  rw [xlate4to6IcmpErrorEmit_written]
  constructor
  · intro h
    exact ⟨em, rfl, ⟨src, hsrc⟩, ⟨dest, hdest⟩, by rw [hicmp]; rfl, fun h => absurd (hpayload.2 h) (by simp), h⟩
  · rintro ⟨_, _, _, _, _, _, h⟩
    exact h

/-- **The error that is written**, about the packet with the addresses the mapper has for it. -/
theorem mem_xlate4to6IcmpError {p : Pkt4} {packet : List Byte} (hmem : packet ∈ written ans (xlate4to6IcmpError g p)) :
    ∃ em icmp src dest q src' dest', quote4 p = some em ∧ ans (.mapIp4ToIp6 em.ip4.src) = .ok src ∧
      ans (.mapIp4ToIp6 em.ip4.dest) = .ok dest ∧ ans (.mapIp4ToIp6 p.ip4.dest) = .ok dest' ∧
      xlatePayload4to6 g (emCut4 em) (emIp6 em src dest) true = some q ∧
      packet = errorPacket4to6 g p src' dest' icmp (emHeader4to6 em src dest) q.data := by
  rw [xlate4to6IcmpError_eq] at hmem
  rcases hquote : quote4 p with _ | em
  · rw [hquote] at hmem
    cases hmem
  rw [hquote, Option.elim_some] at hmem
  unfold xlate4to6Quoted at hmem
  rw [written_bind, mapEm4to6_written, List.nil_append] at hmem
  rcases hmap : (mapEm4to6 em).answer ans with _ | ⟨src, dest⟩
  · rw [hmap] at hmem
    cases hmem
  obtain ⟨hsrc, hdest⟩ := (mapEm4to6_answer em src dest).1 hmap
  rw [hmap] at hmem
  dsimp only at hmem
  rcases hicmp : xlateIcmpError4to6 g p.icmp em.ip4.length.toNat with _ | icmp
  · rw [hicmp] at hmem
    cases hmem
  rw [hicmp] at hmem
  dsimp only at hmem
  rcases hq : xlatePayload4to6 g (emCut4 em) (emIp6 em src dest) true with _ | q
  · rw [hq] at hmem
    cases hmem
  rw [hq] at hmem
  dsimp only at hmem
  unfold xlate4to6IcmpErrorEmit at hmem
  rw [written_mapIp4ToIp6, written_mapIp4ToIp6] at hmem
  rcases hdest' : ans (.mapIp4ToIp6 p.ip4.dest) with e | dest'
  · rw [hdest'] at hmem
    cases hmem
  rw [hdest'] at hmem
  exact ⟨em, icmp, src, dest, q, _, dest', rfl, hsrc, hdest, rfl, hq, List.mem_singleton.1 hmem⟩

/-! ### Errors about IPv6 packets -/

/-- The mapper has an IPv4 address for `addr6`. -/
def Mapped6 (ans : (op : PktOp) → op.Ans) (addr6 : In6) (dynAlloc : Bool) : Prop :=
  ∃ addr4 : In4, ans (.mapIp6ToIp4 addr6 dynAlloc) = .ok addr4

/-- The packet is a fragment without the transport header. -/
def Pkt6.noninitial (p : Pkt6) : Bool := p.frag.any fun f => f.offsetFlags &&& ip6FMask ≠ 0

/-- The length an ICMPv6 error gives the packet it quotes. -/
def emLen6 (icmp : Icmp) : Nat := if icmp.type = 1 ∨ icmp.type = 3 then (icmp.word >>> 21 &&& 0x7f8).toNat else 0

/-- The packet an ICMPv6 error quotes, unless that is an ICMPv6 error itself. -/
def quote6 (p : Pkt6) : Option Pkt6 :=
  (emData (emLen6 p.icmp) (p.data.drop 8)).bind fun d => match parseIp6 d none true with
    | .ok em => if em.dataProto = 58 ∧ em.icmp.type ≠ 128 then none else some em
    | _ => none

/-- A quoted packet with no more data than fits the translated error. -/
def emCut6 (em : Pkt6) : Pkt6 := { em with data := em.data.take (576 - 20 * 2 - 8) }

/-- The length of a quoted packet behind its new header. -/
def emLength6to4 (em : Pkt6) : Nat := em.ip6.payloadLength.toNat - em.headerLen

/-- The rest of `xlate_6to4_icmp_error`, with the quoted packet `em`. -/
def xlate6to4Quoted (g : Gcfg) (p em : Pkt6) : PktProg Unit :=
  match xlateIcmpError6to4 g p.icmp with
  | none => .done ()
  | some icmp => do
    match ← mapEm6to4 em with
    | none => return
    | some (src, dest) =>
      let ip4 ← xlateHeader6to4 em src dest (emLength6to4 em)
      match xlatePayload6to4 g (emCut6 em) ip4 true with
      | none => return
      | some q =>
        let ip4 := { ip4 with cksum := htons g.endian (ipChecksum g.endian ip4.toBytes) }
        xlate6to4IcmpErrorEmit g p icmp ip4.toBytes q.data

private theorem mapEm6to4_congr {p q : Pkt6} (h : p.ip6 = q.ip6) : mapEm6to4 p = mapEm6to4 q := by
  unfold mapEm6to4
  rw [h]
  refine congrArg _ (funext fun r => ?_)
  cases r with
  | error e => rfl
  | ok src =>
    refine congrArg (Program.call _) (funext fun r => ?_)
    cases r <;> rfl

private theorem xlateHeader6to4_congr {p q : Pkt6} (hip6 : p.ip6 = q.ip6) (hfrag : p.frag = q.frag)
    (hproto : p.dataProto = q.dataProto) : xlateHeader6to4 p = xlateHeader6to4 q := by
  have hident : xlateIdent6to4 p = xlateIdent6to4 q := by
    funext len
    unfold xlateIdent6to4
    rw [hfrag]
  funext src dest len
  unfold xlateHeader6to4
  rw [hident, hip6, hproto]

theorem xlate6to4IcmpError_eq (g : Gcfg) (p : Pkt6) :
    xlate6to4IcmpError g p = (quote6 p).elim (.done ()) (xlate6to4Quoted g p) := by
  unfold xlate6to4IcmpError quote6
  have hemLen : (if p.icmp.type = 1 ∨ p.icmp.type = 3 then (p.icmp.word >>> 21 &&& 0x7f8).toNat else 0) =
    emLen6 p.icmp := rfl
  dsimp only
  rw [hemLen]
  rcases emData (emLen6 p.icmp) (p.data.drop 8) with _ | d
  · rfl
  rw [Option.bind_some]
  dsimp only
  rcases parseIp6 d none true with em | n | ⟨ptr, q⟩
  rotate_left
  · rfl
  · rfl
  dsimp only
  by_cases hicmp : em.dataProto = 58 ∧ em.icmp.type ≠ 128
  · rw [if_pos hicmp, if_pos hicmp]
    rfl
  rw [if_neg hicmp, if_neg hicmp]
  show _ = xlate6to4Quoted g p em
  unfold xlate6to4Quoted
  rcases xlateIcmpError6to4 g p.icmp with _ | icmp
  · rfl
  have hmap : ∀ data, mapEm6to4 { em with data := data } = mapEm6to4 em := fun _ => mapEm6to4_congr rfl
  have hheader : ∀ data, xlateHeader6to4 { em with data := data } = xlateHeader6to4 em :=
    fun _ => xlateHeader6to4_congr rfl rfl rfl
  dsimp only
  rw [hmap]
  refine congrArg (mapEm6to4 em >>= ·) (funext fun r => ?_)
  rcases r with _ | ⟨src, dest⟩
  · rfl
  dsimp only
  rw [hheader]
  rfl

/-- What `xlate_header_6to4` makes of a packet, the identification and the flags aside. -/
structure HeaderTo4 (p : Pkt6) (src dest : In4) (len : Nat) (h : Ip4) : Prop where
  hverIhl : h.verIhl = 0x45
  hlength : h.length = BitVec.ofNat 16 (20 + len)
  hproto : h.proto = proto6to4 p.dataProto
  hcksum : h.cksum = 0

theorem xlateHeader6to4_to4 {P : PktOp → Prop} (hP : P (.reserveIp4Ident 1)) (p : Pkt6) (src dest : In4) (len : Nat) :
    (xlateHeader6to4 p src dest len).Asks P (HeaderTo4 p src dest len) := by
  refine Asks.bind (Q := fun _ => True) ?_ fun r _ => ⟨rfl, rfl, rfl, rfl⟩
  unfold xlateIdent6to4
  split
  · trivial
  · exact Asks.ite (fun _ => ⟨hP, fun _ => trivial⟩) fun _ => trivial

/-- The mapper has all that it takes to translate an ICMPv6 error, and neither its type nor the quoted packet is one
that the translator does not translate. -/
def TranslatesError6 (g : Gcfg) (ans : (op : PktOp) → op.Ans) (p : Pkt6) : Prop :=
  ∃ em, quote6 p = some em ∧ (xlateIcmpError6to4 g p.icmp).isSome ∧ Mapped6 ans em.ip6.src false ∧
    Mapped6 ans em.ip6.dest false ∧ ¬(em.noninitial = false ∧ DropsUdp g em.dataProto (emCut6 em).data) ∧
    Mapped6 ans p.ip6.dest false

/-- The packet `xlate_6to4_icmp_error` writes, with the header `ip4`. -/
def errorPacket6to4 (g : Gcfg) (ip4 : Ip4) (icmp : Icmp) (emHeader emData : List Byte) : List Byte :=
  let ip4 := { ip4 with ttl := ip4.ttl - 1 }
  let cksum := onesAdd (ipChecksum g.endian (icmp.toBytes ++ emHeader)) (ipChecksum g.endian emData)
  (ip4.withCksum g.endian).toBytes ++ { icmp with cksum := htons g.endian cksum }.toBytes ++ emHeader ++ emData

/-- An error translated to IPv4, about a quoted packet. -/
inductive ErrorTo4 (g : Gcfg) (p : Pkt6) : List Byte → Prop where
  | about {em : Pkt6} {icmp : Icmp} {src dest emSrc emDest : In4} {ip4 emIp4 : Ip4} {q : Pkt6}
      (hquote : quote6 p = some em) (hicmp : xlateIcmpError6to4 g p.icmp = some icmp)
      (hem : HeaderTo4 em emSrc emDest (emLength6to4 em) emIp4)
      (hpayload : xlatePayload6to4 g (emCut6 em) emIp4 true = some q)
      (hip4 : HeaderTo4 p src dest (8 + 20 + q.data.length) ip4) :
      ErrorTo4 g p (errorPacket6to4 g ip4 icmp
        { emIp4 with cksum := htons g.endian (ipChecksum g.endian emIp4.toBytes) }.toBytes q.data)

theorem xlate6to4IcmpError_errorTo4 (p : Pkt6) :
    OnlySends (fun out packet => out = none ∧ ErrorTo4 g p packet) (xlate6to4IcmpError g p) := by
  rw [xlate6to4IcmpError_eq]
  rcases hquote : quote6 p with _ | em
  · trivial
  rw [Option.elim_some]
  unfold xlate6to4Quoted
  rcases hicmp : xlateIcmpError6to4 g p.icmp with _ | icmp
  · trivial
  refine (OnlySends.of_silent mapEm6to4_writes).bind fun r => ?_
  rcases r with _ | ⟨src, dest⟩
  · trivial
  refine Asks.bind (xlateHeader6to4_to4 trivial em src dest (emLength6to4 em)) fun emIp4 hem => ?_
  rcases hpayload : xlatePayload6to4 g (emCut6 em) emIp4 true with _ | q
  · trivial
  refine ⟨trivial, fun r => ⟨trivial, fun r => ?_⟩⟩
  rcases r with _ | dest'
  · trivial
  refine Asks.bind (xlateHeader6to4_to4 trivial p _ _ _) fun ip4 hip4 => OnlySends.emit ?_
  exact ⟨rfl, .about hquote hicmp hem hpayload hip4⟩

private theorem emCut6_payload {em : Pkt6} {d : List Byte} (h : parseIp6 d none true = .ok em) (ip4 : Ip4) :
    xlatePayload6to4 g (emCut6 em) ip4 true = none ↔
    em.noninitial = false ∧ DropsUdp g em.dataProto (emCut6 em).data := by
  obtain ⟨-, -, -, -, -, hvhdr⟩ := parseIp6_eq_ok h
  unfold xlatePayload6to4
  rw [Option.map_eq_none_iff, show (emCut6 em).vhdr = none from hvhdr,
    xlatePayload_quoted (show (58 : Byte) ≠ 17 by decide)]
  rfl

theorem quote6_eq_some {p em : Pkt6} (h : quote6 p = some em) :
    (∃ d, emData (emLen6 p.icmp) (p.data.drop 8) = some d ∧ parseIp6 d none true = .ok em) ∧
    ¬(em.dataProto = 58 ∧ em.icmp.type ≠ 128) := by
  obtain ⟨d, hdata, hd⟩ := Option.bind_eq_some_iff.1 h
  rcases hparse : parseIp6 d none true with em' | n | ⟨ptr, q⟩
  · rw [hparse] at hd
    dsimp only at hd
    split at hd
    · cases hd
    next hicmp =>
    cases hd
    exact ⟨⟨d, hdata, hparse⟩, hicmp⟩
  all_goals
    rw [hparse] at hd
    cases hd

private theorem mapEm6to4_written (p : Pkt6) : written ans (mapEm6to4 p) = [] := by
  have h : OnlyWrites (fun _ => False) (mapEm6to4 p) := mapEm6to4_writes
  exact List.eq_nil_iff_forall_not_mem.2 fun _ hmem => h.mem hmem

theorem xlateHeader6to4_written (p : Pkt6) (src dest : In4) (len : Nat) :
    written ans (xlateHeader6to4 p src dest len) = [] := by
  have h : OnlyWrites (fun _ => False) (xlateHeader6to4 p src dest len) :=
    (xlateHeader6to4_asks trivial).mono (fun _ h => h) fun _ _ => trivial
  exact List.eq_nil_iff_forall_not_mem.2 fun _ hmem => h.mem hmem

private theorem mapEm6to4_answer (p : Pkt6) (src dest : In4) : (mapEm6to4 p).answer ans = some (src, dest) ↔
    ans (.mapIp6ToIp4 p.ip6.src false) = .ok src ∧ ans (.mapIp6ToIp4 p.ip6.dest false) = .ok dest := by
  unfold mapEm6to4
  rw [answer_call]
  rcases ans (.mapIp6ToIp4 p.ip6.src false) with e | src'
  · simp
  dsimp only
  rw [answer_call]
  rcases ans (.mapIp6ToIp4 p.ip6.dest false) with e | dest'
  · simp
  · simp

private theorem xlate6to4IcmpErrorEmit_written (p : Pkt6) (icmp : Icmp) (emHeader emData : List Byte) :
    written ans (xlate6to4IcmpErrorEmit g p icmp emHeader emData) ≠ [] ↔ Mapped6 ans p.ip6.dest false := by
  unfold xlate6to4IcmpErrorEmit Mapped6
  rw [written_mapIp6ToIp4, written_mapIp6ToIp4]
  rcases ans (.mapIp6ToIp4 p.ip6.dest false) with e | dest
  · simp
  · dsimp only
    rw [written_bind, xlateHeader6to4_written]
    exact iff_of_true (List.cons_ne_nil _ _) ⟨dest, rfl⟩

/-- **An ICMPv6 error is translated**, or nothing is written. -/
theorem xlate6to4IcmpError_written (p : Pkt6) :
    written ans (xlate6to4IcmpError g p) ≠ [] ↔ TranslatesError6 g ans p := by
  rw [xlate6to4IcmpError_eq]
  unfold TranslatesError6
  rcases hquote : quote6 p with _ | em
  · simp
  obtain ⟨⟨d, -, hparse⟩, -⟩ := quote6_eq_some hquote
  rw [Option.elim_some]
  unfold xlate6to4Quoted
  rcases hicmp : xlateIcmpError6to4 g p.icmp with _ | icmp
  · simp
  dsimp only
  rw [written_bind, mapEm6to4_written, List.nil_append]
  rcases hmap : (mapEm6to4 em).answer ans with _ | ⟨src, dest⟩
  · refine iff_of_false (by simp) ?_
    rintro ⟨em', hem', -, ⟨src, hsrc⟩, ⟨dest, hdest⟩, -⟩
    cases hem'
    rw [(mapEm6to4_answer em src dest).2 ⟨hsrc, hdest⟩] at hmap
    cases hmap
  obtain ⟨hsrc, hdest⟩ := (mapEm6to4_answer em src dest).1 hmap
  dsimp only
  rw [written_bind, xlateHeader6to4_written, List.nil_append]
  generalize (xlateHeader6to4 em src dest (emLength6to4 em)).answer ans = ip4
  have hpayload := emCut6_payload (g := g) hparse ip4
  rcases hq : xlatePayload6to4 g (emCut6 em) ip4 true with _ | q
  · refine iff_of_false (by simp) ?_
    rintro ⟨em', hem', -, -, -, hkept, -⟩
    cases hem'
    exact hkept (hpayload.1 hq)
  rw [hq] at hpayload
  dsimp only
  rw [xlate6to4IcmpErrorEmit_written]
  constructor
  · exact fun h => ⟨em, rfl, rfl, ⟨src, hsrc⟩, ⟨dest, hdest⟩, fun h => absurd (hpayload.2 h) (by simp), h⟩
  · rintro ⟨_, _, _, _, _, _, h⟩
    exact h

/-- The header `xlate_header_6to4` makes. -/
theorem answer_xlateHeader6to4 (ans : (op : PktOp) → op.Ans) (p : Pkt6) (src dest : In4) (len : Nat) :
    ((xlateHeader6to4 p src dest len).answer ans).src = src ∧
    ((xlateHeader6to4 p src dest len).answer ans).dest = dest ∧
    HeaderTo4 p src dest len ((xlateHeader6to4 p src dest len).answer ans) := by
  unfold xlateHeader6to4
  rw [answer_bind]
  exact ⟨rfl, rfl, rfl, rfl, rfl, rfl⟩

/-- **The error that is written**, about the packet with the addresses the mapper has for it. -/
theorem mem_xlate6to4IcmpError {p : Pkt6} {packet : List Byte} (hmem : packet ∈ written ans (xlate6to4IcmpError g p)) :
    ∃ em icmp src dest emIp4 q ip4 dest', quote6 p = some em ∧ ans (.mapIp6ToIp4 em.ip6.src false) = .ok src ∧
      ans (.mapIp6ToIp4 em.ip6.dest false) = .ok dest ∧ ans (.mapIp6ToIp4 p.ip6.dest false) = .ok dest' ∧
      emIp4.src = src ∧ emIp4.dest = dest ∧ HeaderTo4 em src dest (emLength6to4 em) emIp4 ∧ ip4.dest = dest' ∧
      xlatePayload6to4 g (emCut6 em) emIp4 true = some q ∧
      packet = errorPacket6to4 g ip4 icmp
        { emIp4 with cksum := htons g.endian (ipChecksum g.endian emIp4.toBytes) }.toBytes q.data := by
  rw [xlate6to4IcmpError_eq] at hmem
  rcases hquote : quote6 p with _ | em
  · rw [hquote] at hmem
    cases hmem
  rw [hquote, Option.elim_some] at hmem
  unfold xlate6to4Quoted at hmem
  rcases hicmp : xlateIcmpError6to4 g p.icmp with _ | icmp
  · rw [hicmp] at hmem
    cases hmem
  rw [hicmp] at hmem
  dsimp only at hmem
  rw [written_bind, mapEm6to4_written, List.nil_append] at hmem
  rcases hmap : (mapEm6to4 em).answer ans with _ | ⟨src, dest⟩
  · rw [hmap] at hmem
    cases hmem
  obtain ⟨hsrc, hdest⟩ := (mapEm6to4_answer em src dest).1 hmap
  rw [hmap] at hmem
  dsimp only at hmem
  rw [written_bind, xlateHeader6to4_written, List.nil_append] at hmem
  obtain ⟨hemSrc, hemDest, hem⟩ := answer_xlateHeader6to4 ans em src dest (emLength6to4 em)
  generalize (xlateHeader6to4 em src dest (emLength6to4 em)).answer ans = emIp4 at hmem hemSrc hemDest hem
  rcases hq : xlatePayload6to4 g (emCut6 em) emIp4 true with _ | q
  · rw [hq] at hmem
    cases hmem
  rw [hq] at hmem
  dsimp only at hmem
  unfold xlate6to4IcmpErrorEmit at hmem
  rw [written_mapIp6ToIp4, written_mapIp6ToIp4] at hmem
  rcases hdest' : ans (.mapIp6ToIp4 p.ip6.dest false) with e | dest'
  · rw [hdest'] at hmem
    cases hmem
  rw [hdest'] at hmem
  dsimp only at hmem
  rw [written_bind, xlateHeader6to4_written, List.nil_append] at hmem
  exact ⟨em, icmp, src, dest, emIp4, q, _, dest', rfl, hsrc, hdest, rfl, hemSrc, hemDest, hem,
    (answer_xlateHeader6to4 _ _ _ _ _).2.1, hq, List.mem_singleton.1 hmem⟩

end Tayga
