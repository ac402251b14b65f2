import Tayga.FragmentLaw
import Tayga.Startup
import Tayga.Verdicts

/-!
# Packets on the data path

If a handler writes a packet of the other version for a packet that is no ICMP error, the packet has come to the end of
the data path, with the addresses the mapper has answered (`handleIp4_emits`, `handleIp6_emits`).
-/

namespace Tayga

open Program

variable {g : Gcfg} {ans : (op : PktOp) → op.Ans} {d packet : List Byte} {vhdr : Option VnetHdr} {offload : Bool}

/-! ### Runs with fixed answers -/

/-- The run of a program with fixed answers. -/
theorem exists_run (ans : (op : PktOp) → op.Ans) (prog : PktProg Unit) :
    ∃ t, prog.Runs t () ∧ outputs t = written ans prog ∧ ∀ e ∈ t, e.2 = ans e.1 := by
  induction prog with
  | done a => exact ⟨[], ⟨rfl, rfl⟩, rfl, fun _ he => absurd he List.not_mem_nil⟩
  | call op next ih =>
    obtain ⟨t, hruns, hout, hans⟩ := ih (ans op)
    refine ⟨⟨op, ans op⟩ :: t, ⟨_, _, rfl, hruns⟩, ?_, List.forall_mem_cons.2 ⟨rfl, hans⟩⟩
    unfold outputs written at hout ⊢
    rw [asked_call, List.filterMap_cons, List.filterMap_cons, hout]

theorem Delivers.allSent {t : List (Sigma PktOp.Ans)} (h : Delivers ans) (ht : ∀ e ∈ t, e.2 = ans e.1) :
    AllSent t := by
  rintro ⟨op, x⟩ he
  obtain rfl : x = ans op := ht _ he
  cases op with
  | write vhdr packet => exact h vhdr packet
  | _ => trivial

/-! ### To IPv6 -/

section To6

variable {p : Pkt4}

/-- `handle_ip4` has nothing against a packet that it translates. -/
private theorem handleIp4_data (hgso : isGso vhdr = false) (hparse : parseIp4 d vhdr false = .ok p)
    (hdata : DataPacket4 p) (hmem : packet ∈ written ans (handleIp4 g offload d vhdr)) (hv : version packet = 6) :
    Valid4 g p ∧ p.ip4.ttl ≠ 1 ∧ p.ip4.dest ≠ g.localAddr4 ∧ handleIp4 g offload d vhdr = xlate4to6Data g p := by
  have hplain : handleIp4 g offload d vhdr = handlePlain4 g d vhdr := by
    unfold handleIp4
    rw [hgso, if_neg Bool.false_ne_true]
  rw [hplain] at hmem ⊢
  obtain ⟨out, p', hparse', hvalid, -⟩ := handlePlain4_output.mem_written hmem
  obtain rfl : p = p' := Except.ok.inj (hparse.symm.trans hparse')
  -- what the translator sends on its own account is IPv4
  have hfour : ∀ {prog : PktProg Unit}, OnlyWrites (fun packet => version packet = 4) prog →
      packet ∈ written ans prog → False := by
    intro prog hprog hmem
    have h4 := hprog.mem hmem
    rw [hv] at h4
    exact absurd h4 (by decide)
  have herror : ∀ type code word, OnlyWrites (fun packet => version packet = 4)
      (hostSendIcmp4Error g type code word p) :=
    fun type code word => OnlyWrites.ite (fun _ => .done _) fun _ => .emit (version_icmpPacket4 _ _ _ _ _ _)
  rw [handlePlain4_valid hparse hvalid] at hmem ⊢
  by_cases hdest : p.ip4.dest = g.localAddr4
  · rw [if_pos hdest] at hmem
    have hself : OnlyWrites (fun packet => version packet = 4)
        (if p.dataProto = 1 then hostHandleIcmp4 g p else hostSendIcmp4Error g 3 2 0 p) :=
      OnlyWrites.ite (fun _ => OnlyWrites.ite (fun _ => .emit (version_icmpPacket4 _ _ _ _ _ _)) fun _ => .done _)
        fun _ => herror 3 2 0
    exact (hfour hself hmem).elim
  rw [if_neg hdest] at hmem ⊢
  by_cases httl : p.ip4.ttl = 1
  · rw [if_pos httl] at hmem
    exact (hfour (herror 11 0 0) hmem).elim
  rw [if_neg httl, if_pos hdata]
  exact ⟨hvalid, httl, hdest, rfl⟩

/-- **A packet that `handle_ip4` translates** is sent in one piece or in fragments. -/
theorem handleIp4_emits (hgso : isGso vhdr = false) (hparse : parseIp4 d vhdr false = .ok p) (hdata : DataPacket4 p)
    (hmem : packet ∈ written ans (handleIp4 g offload d vhdr)) (hv : version packet = 6) :
    Valid4 g p ∧ ∃ src dest noFragHdr t, ans (.mapIp4ToIp6 p.ip4.src) = .ok src ∧
      ans (.mapIp4ToIp6 p.ip4.dest) = .ok dest ∧ (noFragHdr = false ↔ FragmentPath g p) ∧
      (noFragHdr = true → p.data.length ≤ g.mtu - 40) ∧
      (xlate4to6Emit g p src dest (limit6 g - 40) noFragHdr).Runs t () ∧
      outputs t = written ans (handleIp4 g offload d vhdr) ∧ ∀ e ∈ t, e.2 = ans e.1 := by
  obtain ⟨hvalid, -, -, heq⟩ := handleIp4_data hgso hparse hdata hmem hv
  rw [heq] at hmem ⊢
  obtain ⟨t, hruns, hout, hans⟩ := exists_run ans (xlate4to6Data g p)
  rw [← hout] at hmem ⊢
  rcases xlate4to6Data_runs hruns with hnone | ⟨t, src, dest, noFragHdr, rfl, hpath, hfit, hemit⟩
  · exact (version_absurd hnone ⟨packet, hmem, hv⟩).elim
  obtain ⟨hdest, hans⟩ := List.forall_mem_cons.1 hans
  obtain ⟨hsrc, hans⟩ := List.forall_mem_cons.1 hans
  exact ⟨hvalid, src, dest, noFragHdr, t, hsrc.symm, hdest.symm, hpath, hfit, hemit, rfl, hans⟩

end To6

/-! ### To IPv4 -/

section To4

variable {p : Pkt6}

/-- The header `xlate_6to4_data` gives a packet. -/
def sentHeader4 (ans : (op : PktOp) → op.Ans) (p : Pkt6) (src dest : In4) : Ip4 :=
  dataHeader6to4 p src dest ((xlateIdent6to4 p p.data.length).answer ans)

/-- The packet that is sent, unless its payload cannot be translated. -/
theorem written_xlate6to4Emit (g : Gcfg) (ans : (op : PktOp) → op.Ans) (p : Pkt6) (src dest : In4) :
    written ans (xlate6to4Emit g p src dest) =
    (xlatePayload6to4 g p (sentHeader4 ans p src dest) false).toList.map fun q =>
      ((sentHeader4 ans p src dest).withCksum g.endian).toBytes ++ q.data := by
  unfold xlate6to4Emit
  rw [written_bind, xlateHeader6to4_written, List.nil_append]
  unfold xlateHeader6to4
  rw [answer_bind]
  unfold sentHeader4 dataHeader6to4
  dsimp only [pure_eq, answer_done]
  split
  · next hnone =>
    rw [hnone]
    rfl
  · next q hq =>
    rw [hq]
    rfl

/-- `handle_ip6` has nothing against a packet that it translates. -/
private theorem handleIp6_data (hgso : isGso vhdr = false) (hparse : parseIp6 d vhdr false = .ok p)
    (hdata : DataPacket6 p) (hmem : packet ∈ written ans (handleIp6 g offload d vhdr)) (hv : version packet = 4) :
    Valid6 g p ∧ handleIp6 g offload d vhdr = xlate6to4Data g p := by
  have hplain : handleIp6 g offload d vhdr = handlePlain6 g d vhdr := by
    unfold handleIp6
    rw [hgso, if_neg Bool.false_ne_true]
  rw [hplain] at hmem ⊢
  have hvalid : Valid6 g p := by
    obtain ⟨out, p', ⟨hparse', hvalid, -⟩ | ⟨⟨ptr, hparse'⟩, -⟩⟩ := handlePlain6_output.mem_written hmem
    · rw [hparse] at hparse'
      cases hparse'
      exact hvalid
    · rw [hparse] at hparse'
      cases hparse'
  -- what the translator sends on its own account is IPv6
  have hsix : ∀ {prog : PktProg Unit}, OnlyWrites (fun packet => version packet = 6) prog →
      packet ∈ written ans prog → False := by
    intro prog hprog hmem
    have h6 := hprog.mem hmem
    rw [hv] at h6
    exact absurd h6 (by decide)
  have herror : ∀ type code word, OnlyWrites (fun packet => version packet = 6)
      (hostSendIcmp6Error g type code word p) :=
    fun type code word => OnlyWrites.ite (fun _ => .done _) fun _ => .emit (version_icmpPacket6 _ _ _ _ _ _)
  rw [handlePlain6_valid hparse hvalid] at hmem ⊢
  by_cases hdest : p.ip6.dest = g.localAddr6
  · rw [if_pos hdest] at hmem
    have hself : OnlyWrites (fun packet => version packet = 6)
        (if p.dataProto = 58 then hostHandleIcmp6 g p else hostSendIcmp6Error g 4 1 6 p) :=
      OnlyWrites.ite (fun _ => OnlyWrites.ite (fun _ => .emit (version_icmpPacket6 _ _ _ _ _ _)) fun _ => .done _)
        fun _ => herror 4 1 6
    exact (hsix hself hmem).elim
  rw [if_neg hdest] at hmem ⊢
  by_cases hhops : p.ip6.hopLimit = 1
  · rw [if_pos hhops] at hmem
    exact (hsix (herror 3 0 0) hmem).elim
  rw [if_neg hhops, if_pos hdata]
  exact ⟨hvalid, rfl⟩

/-- **A packet that `handle_ip6` translates** is sent, unless its payload cannot be translated. -/
theorem handleIp6_emits (hgso : isGso vhdr = false) (hparse : parseIp6 d vhdr false = .ok p) (hdata : DataPacket6 p)
    (hmem : packet ∈ written ans (handleIp6 g offload d vhdr)) (hv : version packet = 4) :
    Valid6 g p ∧ 40 + p.data.length ≤ g.mtu ∧ ∃ src dest, ans (.mapIp6ToIp4 p.ip6.src true) = .ok src ∧
      ans (.mapIp6ToIp4 p.ip6.dest false) = .ok dest ∧
      ∃ q, xlatePayload6to4 g p (sentHeader4 ans p src dest) false = some q ∧ written ans (handleIp6 g offload d vhdr) =
        [((sentHeader4 ans p src dest).withCksum g.endian).toBytes ++ q.data] := by
  obtain ⟨hvalid, heq⟩ := handleIp6_data hgso hparse hdata hmem hv
  rw [heq] at hmem ⊢
  obtain ⟨t, hruns, hout, hans⟩ := exists_run ans (xlate6to4Data g p)
  rcases xlate6to4Data_runs hruns with hnone | ⟨t, src, dest, rfl, hfit, -⟩
  · have h6 := hnone packet (by rw [hout]; exact hmem)
    rw [hv] at h6
    exact absurd h6 (by decide)
  obtain ⟨hdest, hans⟩ := List.forall_mem_cons.1 hans
  obtain ⟨hsrc, -⟩ := List.forall_mem_cons.1 hans
  have hemit : written ans (xlate6to4Data g p) = written ans (xlate6to4Emit g p src dest) := by
    unfold xlate6to4Data
    rw [written_mapIp6ToIp4, ← hdest]
    dsimp only
    rw [written_mapIp6ToIp4, ← hsrc]
    dsimp only
    rw [if_neg (Nat.not_lt.2 hfit)]
  rw [hemit, written_xlate6to4Emit] at hmem ⊢
  rcases hq : xlatePayload6to4 g p (sentHeader4 ans p src dest) false with _ | q
  · rw [hq] at hmem
    cases hmem
  · exact ⟨hvalid, hfit, src, dest, hsrc.symm, hdest.symm, q, hq, rfl⟩

end To4

/-- The mapper in a fixed state, and the rest as in `frameAns`. -/
def mapperAns (g : Gcfg) : (op : PktOp) → op.Ans
  | .mapIp4ToIp6 addr4 => (mapIp4ToIp6 g addr4).1
  | .mapIp6ToIp4 addr6 dynAlloc => (mapIp6ToIp4 g addr6 dynAlloc).1
  | op => frameAns op

end Tayga
