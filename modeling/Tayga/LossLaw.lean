import Tayga.Quotes

/-!
# Dropped packets and the drop counter

`handle_ip4` and `handle_ip6` count a packet as dropped at most once, and a packet for which nothing is written exactly
once (`Accounted`), but for a few packets that are only logged (`Silent4`, `Silent6`): ICMP messages other than echo
requests to the translator itself or with an error that may not be sent about them, ICMP errors that are not translated,
and IPv4 fragments without data.
-/

namespace Tayga

open Program

variable {g : Gcfg} {d : List Byte} {vhdr : Option VnetHdr} {ans : (op : PktOp) → op.Ans} {α β : Type}

/-! ### Counting -/

/-- The operation counts a dropped packet. -/
def PktOp.isDrop : PktOp → Bool
  | .statsDrop _ => true
  | _ => false

/-- How often a program counts a dropped packet. -/
def drops (ans : (op : PktOp) → op.Ans) (prog : PktProg α) : Nat := (prog.asked ans).countP PktOp.isDrop

@[simp] theorem drops_done (a : α) : drops ans (.done a) = 0 := rfl

@[simp] theorem drops_bind (prog : PktProg α) (f : α → PktProg β) :
    drops ans (prog >>= f) = drops ans prog + drops ans (f (prog.answer ans)) := by
  unfold drops
  rw [asked_bind, List.countP_append]

private theorem drops_statsDrop (len : Nat) : drops ans (statsDrop len) = 1 := rfl

/-- A program that counts no packet, whatever the answers. -/
def Uncounted (prog : PktProg α) : Prop := prog.Asks (fun op => op.isDrop = false) fun _ => True

private theorem Uncounted.drops_eq {prog : PktProg α} (h : Uncounted prog) : drops ans prog = 0 := by
  unfold drops
  rw [List.countP_eq_zero]
  intro op hop
  rw [Asks.asked h ans op hop]
  exact Bool.false_ne_true

theorem Uncounted.bind {prog : PktProg α} {f : α → PktProg β} (hprog : Uncounted prog) (hf : ∀ a, Uncounted (f a)) :
    Uncounted (prog >>= f) :=
  Asks.bind hprog fun a _ => hf a

/-- A packet is counted at most once, and once if nothing is written. -/
structure Accounted (ans : (op : PktOp) → op.Ans) (prog : PktProg α) : Prop where
  once : drops ans prog ≤ 1
  counted : written ans prog = [] → drops ans prog = 1

private theorem Accounted.of_counted {prog : PktProg α} (h : drops ans prog = 1) : Accounted ans prog :=
  ⟨Nat.le_of_eq h, fun _ => h⟩

/-- A program that counts nothing accounts for its packet by writing. -/
private theorem accounted_iff_written {prog : PktProg α} (h : drops ans prog = 0) :
    Accounted ans prog ↔ written ans prog ≠ [] := by
  constructor
  · intro hacc hnil
    have := hacc.counted hnil
    omega
  · exact fun hw => ⟨by omega, fun hnil => absurd hnil hw⟩

private theorem accounted_statsDrop (len : Nat) : Accounted ans (statsDrop len) := .of_counted rfl

/-! ### Errors -/

/-- An ICMP message other than an echo request: no error is sent about it. -/
def IcmpOther4 (p : Pkt4) : Prop := p.dataProto = 1 ∧ p.icmp.type ≠ 8

/-- An ICMPv6 message other than an echo request: no error is sent about it. -/
def IcmpOther6 (p : Pkt6) : Prop := p.dataProto = 58 ∧ p.icmp.type ≠ 128

private theorem hostSendIcmp4Error_uncounted (type code : Byte) (word : BitVec 32) (p : Pkt4) :
    Uncounted (hostSendIcmp4Error g type code word p) :=
  Asks.ite (fun _ => trivial) fun _ => ⟨rfl, fun _ => trivial⟩

private theorem hostSendIcmp6Error_uncounted (type code : Byte) (word : BitVec 32) (p : Pkt6) :
    Uncounted (hostSendIcmp6Error g type code word p) :=
  Asks.ite (fun _ => trivial) fun _ => ⟨rfl, fun _ => trivial⟩

private theorem hostSendIcmp4Error_written (type code : Byte) (word : BitVec 32) (p : Pkt4) :
    written ans (hostSendIcmp4Error g type code word p) ≠ [] ↔ ¬IcmpOther4 p := by
  unfold hostSendIcmp4Error IcmpOther4
  by_cases h : p.dataProto = 1 ∧ p.icmp.type ≠ 8
  · rw [if_pos h]
    exact iff_of_false (by simp) (not_not.2 h)
  · rw [if_neg h]
    exact iff_of_true (List.cons_ne_nil _ _) h

private theorem hostSendIcmp6Error_written (type code : Byte) (word : BitVec 32) (p : Pkt6) :
    written ans (hostSendIcmp6Error g type code word p) ≠ [] ↔ ¬IcmpOther6 p := by
  unfold hostSendIcmp6Error IcmpOther6
  by_cases h : p.dataProto = 58 ∧ p.icmp.type ≠ 128
  · rw [if_pos h]
    exact iff_of_false (by simp) (not_not.2 h)
  · rw [if_neg h]
    exact iff_of_true (List.cons_ne_nil _ _) h

private theorem accounted_error4 (type code : Byte) (word : BitVec 32) (p : Pkt4) :
    Accounted ans (hostSendIcmp4Error g type code word p) ↔ ¬IcmpOther4 p := by
  rw [accounted_iff_written (hostSendIcmp4Error_uncounted type code word p).drops_eq, hostSendIcmp4Error_written]

private theorem accounted_error6 (type code : Byte) (word : BitVec 32) (p : Pkt6) :
    Accounted ans (hostSendIcmp6Error g type code word p) ↔ ¬IcmpOther6 p := by
  rw [accounted_iff_written (hostSendIcmp6Error_uncounted type code word p).drops_eq, hostSendIcmp6Error_written]

/-- A packet that is counted and answered with an error. -/
private theorem accounted_rejected {len : Nat} {prog : PktProg Unit} (h : Uncounted prog) :
    Accounted ans (statsDrop len >>= fun _ => prog) := by
  refine .of_counted ?_
  rw [drops_bind, drops_statsDrop, h.drops_eq]

/-! ### Aggregates -/

/-- An entry point for aggregates counts nothing, and returns that it took a packet only if it wrote one. -/
structure Honest (ans : (op : PktOp) → op.Ans) (prog : PktProg Bool) : Prop where
  uncounted : drops ans prog = 0
  wrote : prog.answer ans = true → written ans prog ≠ []

namespace Honest

theorem refused : Honest ans (.done false) := ⟨rfl, fun h => absurd h Bool.false_ne_true⟩

theorem ite {c : Prop} [Decidable c] {p q : PktProg Bool} (hp : c → Honest ans p) (hq : ¬c → Honest ans q) :
    Honest ans (if c then p else q) := by
  by_cases h : c
  · rw [if_pos h]
    exact hp h
  · rw [if_neg h]
    exact hq h

theorem call {op : PktOp} {f : op.Ans → PktProg Bool} (hop : op.isDrop = false) (hf : Honest ans (f (ans op))) :
    Honest ans (.call op f) := by
  refine ⟨?_, fun hans hnil => hf.wrote hans ?_⟩
  · unfold drops
    rw [asked_call, List.countP_cons_of_neg (by rw [hop]; exact Bool.false_ne_true)]
    exact hf.uncounted
  · unfold written at hnil ⊢
    rw [asked_call, List.filterMap_cons] at hnil
    split at hnil
    · exact hnil
    · cases hnil

/-- What comes before counts nothing. -/
theorem after {prog : PktProg α} {f : α → PktProg Bool} (h : drops ans prog = 0)
    (hf : Honest ans (f (prog.answer ans))) : Honest ans (prog >>= f) := by
  refine ⟨?_, fun hans hnil => ?_⟩
  · rw [drops_bind, h, hf.uncounted]
  · rw [answer_bind] at hans
    rw [written_bind, List.append_eq_nil_iff] at hnil
    exact hf.wrote hans hnil.2

/-- What comes before has written a packet. -/
private theorem of_written {prog : PktProg α} {f : α → PktProg Bool} (h : drops ans prog = 0)
    (hw : written ans prog ≠ []) (hf : drops ans (f (prog.answer ans)) = 0) : Honest ans (prog >>= f) := by
  refine ⟨?_, fun _ hnil => ?_⟩
  · rw [drops_bind, h, hf]
  · rw [written_bind, List.append_eq_nil_iff] at hnil
    exact hw hnil.1

private theorem emitted {vhdr : Option VnetHdr} {packet : List Byte} {f : Unit → PktProg Bool}
    (hf : drops ans (f ()) = 0) :
    Honest ans (emit vhdr packet >>= f) :=
  of_written rfl (List.cons_ne_nil _ _) hf

end Honest

private theorem accounted_dropRefused {len : Nat} {prog : PktProg Bool} (h : Honest ans prog) :
    Accounted ans (dropRefused len prog) := by
  unfold dropRefused
  rcases hans : prog.answer ans with _ | _
  · refine .of_counted ?_
    rw [drops_bind, h.uncounted, hans]
    rfl
  · refine (accounted_iff_written ?_).2 fun hnil => ?_
    · rw [drops_bind, h.uncounted, hans]
      rfl
    · rw [written_bind, List.append_eq_nil_iff] at hnil
      exact h.wrote hans hnil.1

private theorem gsoError4_honest {type code : Byte} {word : BitVec 32} {p : Pkt4} (hp : p.dataProto ≠ 1) :
    Honest ans (gsoError4 g type code word p) :=
  .of_written (hostSendIcmp4Error_uncounted type code word p).drops_eq
    ((hostSendIcmp4Error_written type code word p).2 fun h => hp h.1) rfl

private theorem gsoError6_honest {type code : Byte} {word : BitVec 32} {p : Pkt6} (hp : p.dataProto ≠ 58) :
    Honest ans (gsoError6 g type code word p) :=
  .of_written (hostSendIcmp6Error_uncounted type code word p).drops_eq
    ((hostSendIcmp6Error_written type code word p).2 fun h => hp h.1) rfl

/-- The mapping with its errors: what is done without addresses is honest. -/
private theorem gsoMap4to6WithIcmp_honest {p : Pkt4} (hp : p.dataProto ≠ 1) {f : Except Bool (In6 × In6) → PktProg Bool}
    (herror : ∀ handled, f (.error handled) = .done handled) (hok : ∀ r, Honest ans (f (.ok r))) :
    Honest ans (gsoMap4to6WithIcmp g p >>= f) := by
  have hanswered : ∀ type code word,
      Honest ans (hostSendIcmp4Error g type code word p >>= fun _ => f (.error true)) := fun type code word =>
    .of_written (hostSendIcmp4Error_uncounted type code word p).drops_eq
      ((hostSendIcmp4Error_written type code word p).2 fun h => hp h.1) (by rw [herror]; rfl)
  have hrefused : Honest ans (f (.error false)) := by
    rw [herror]
    exact .refused
  unfold gsoMap4to6WithIcmp
  by_cases hdest : p.ip4.dest = g.localAddr4
  · rw [if_pos hdest, bind_assoc]
    exact hanswered 3 2 0
  rw [if_neg hdest, call_bind]
  refine .call rfl ?_
  rcases ans (.mapIp4ToIp6 p.ip4.dest) with (_ | _ | _) | dst6
  · rw [bind_assoc]
    exact hanswered 3 1 0
  · exact hrefused
  · exact hrefused
  dsimp only
  rw [call_bind]
  refine .call rfl ?_
  rcases ans (.mapIp4ToIp6 p.ip4.src) with (_ | _ | _) | src6
  · rw [bind_assoc]
    exact hanswered 3 10 0
  · exact hrefused
  · exact hrefused
  · exact hok _

private theorem gsoMap6to4WithIcmp_honest {p : Pkt6} (hp : p.dataProto ≠ 58)
    {f : Except Bool (In4 × In4) → PktProg Bool}
    (herror : ∀ handled, f (.error handled) = .done handled) (hok : ∀ r, Honest ans (f (.ok r))) :
    Honest ans (gsoMap6to4WithIcmp g p >>= f) := by
  have hanswered : ∀ type code word,
      Honest ans (hostSendIcmp6Error g type code word p >>= fun _ => f (.error true)) := fun type code word =>
    .of_written (hostSendIcmp6Error_uncounted type code word p).drops_eq
      ((hostSendIcmp6Error_written type code word p).2 fun h => hp h.1) (by rw [herror]; rfl)
  have hrefused : Honest ans (f (.error false)) := by
    rw [herror]
    exact .refused
  unfold gsoMap6to4WithIcmp
  by_cases hdest : p.ip6.dest = g.localAddr6
  · rw [if_pos hdest, bind_assoc]
    exact hanswered 4 1 6
  rw [if_neg hdest, call_bind]
  refine .call rfl ?_
  rcases ans (.mapIp6ToIp4 p.ip6.dest false) with (_ | _ | _) | dst4
  · rw [bind_assoc]
    exact hanswered 1 0 0
  · exact hrefused
  · exact hrefused
  dsimp only
  rw [call_bind]
  refine .call rfl ?_
  rcases ans (.mapIp6ToIp4 p.ip6.src true) with (_ | _ | _) | src4
  · rw [bind_assoc]
    exact hanswered 1 5 0
  · exact hrefused
  · exact hrefused
  · exact hok _

/-- The loop of the software emitters writes before it returns that it took the packet. -/
private theorem segmentLoop_honest {gsoSize : Nat} {build : SegmentBuilder} (n offset : Nat) (nextId : BitVec 16)
    (payload : List Byte) : Honest ans (segmentLoop gsoSize build (n + 1) offset nextId payload) := by
  have hcount : ∀ n offset nextId payload, Uncounted (segmentLoop gsoSize build n offset nextId payload) := by
    intro n
    induction n with
    | zero => exact fun _ _ _ => trivial
    | succ n ih =>
      intro offset nextId payload
      unfold segmentLoop
      dsimp only
      split
      · trivial
      · exact ⟨rfl, fun ret => Asks.ite (fun _ => trivial) fun _ => Asks.ite (fun _ => trivial) fun _ => ih _ _ _⟩
  refine ⟨(hcount _ _ _ _).drops_eq, ?_⟩
  unfold segmentLoop
  dsimp only
  split
  · exact fun h => absurd h Bool.false_ne_true
  · exact fun _ => List.cons_ne_nil _ _

private theorem reserveSegments_uncounted {count : BitVec 16} : Uncounted (reserveSegments count) :=
  Asks.ite (fun _ => trivial) fun _ => ⟨rfl, fun _ => trivial⟩

private theorem gsoIdent_uncounted {maxLen payloadLen gsoSize : Nat} : Uncounted (gsoIdent maxLen payloadLen gsoSize) :=
  Asks.ite (fun _ => ⟨rfl, fun _ => trivial⟩) fun _ => trivial

/-- TCP and UDP are no ICMP messages. -/
private theorem transport_ne : (6 : Byte) ≠ 1 ∧ (17 : Byte) ≠ 1 ∧ (6 : Byte) ≠ 58 ∧ (17 : Byte) ≠ 58 := by decide

private theorem gsoSoftwareSegmentAndSend6to4_honest : Honest ans (gsoSoftwareSegmentAndSend6to4 g d vhdr) := by
  cases vhdr with
  | none => exact .refused
  | some v =>
    have hp : (gsoPkt6 d v 6).dataProto ≠ 58 := transport_ne.2.2.1
    unfold gsoSoftwareSegmentAndSend6to4
    refine .ite (fun _ => .refused) fun _ => .ite (fun _ => .refused) fun _ => .ite (fun _ => .refused) fun _ =>
      .ite (fun _ => .refused) fun _ => .ite (fun _ => gsoError6_honest hp) fun _ =>
      .ite (fun _ => gsoError6_honest hp) fun _ => ?_
    refine gsoMap6to4WithIcmp_honest hp (fun _ => rfl) fun r => ?_
    exact .after reserveSegments_uncounted.drops_eq (segmentLoop_honest _ _ _ _)

private theorem gsoSoftwareSegmentAndSendUdp6to4_honest : Honest ans (gsoSoftwareSegmentAndSendUdp6to4 g d vhdr) := by
  cases vhdr with
  | none => exact .refused
  | some v =>
    have hp : (gsoPkt6 d v 17).dataProto ≠ 58 := transport_ne.2.2.2
    unfold gsoSoftwareSegmentAndSendUdp6to4
    refine .ite (fun _ => .refused) fun _ => .ite (fun _ => .refused) fun _ => .ite (fun _ => .refused) fun _ =>
      .ite (fun _ => gsoError6_honest hp) fun _ => .ite (fun _ => gsoError6_honest hp) fun _ => ?_
    refine gsoMap6to4WithIcmp_honest hp (fun _ => rfl) fun r => ?_
    exact .after reserveSegments_uncounted.drops_eq (segmentLoop_honest _ _ _ _)

private theorem gsoTranslateTcp6to4_honest : Honest ans (gsoTranslateTcp6to4 g d vhdr) := by
  cases vhdr with
  | none => exact .refused
  | some v =>
    have hp : (gsoPkt6 d v 6).dataProto ≠ 58 := transport_ne.2.2.1
    unfold gsoTranslateTcp6to4
    refine .ite (fun _ => .refused) fun _ => .ite (fun _ => .refused) fun _ => .ite (fun _ => .refused) fun _ =>
      .ite (fun _ => .refused) fun _ => .ite (fun _ => .refused) fun _ => .ite (fun _ => gsoError6_honest hp) fun _ =>
      .ite (fun _ => gsoError6_honest hp) fun _ => .ite (fun _ => gsoSoftwareSegmentAndSend6to4_honest) fun _ => ?_
    refine gsoMap6to4WithIcmp_honest hp (fun _ => rfl) fun r => .ite (fun _ => .emitted rfl) fun _ => ?_
    exact .after gsoIdent_uncounted.drops_eq (.emitted rfl)

private theorem gsoTranslateUdp6to4_honest : Honest ans (gsoTranslateUdp6to4 g d vhdr) := by
  cases vhdr with
  | none => exact .refused
  | some v =>
    have hp : (gsoPkt6 d v 17).dataProto ≠ 58 := transport_ne.2.2.2
    unfold gsoTranslateUdp6to4
    refine .ite (fun _ => .refused) fun _ => .ite (fun _ => .refused) fun _ => .ite (fun _ => .refused) fun _ =>
      .ite (fun _ => .refused) fun _ => .ite (fun _ => gsoError6_honest hp) fun _ => .ite (fun _ => .refused) fun _ =>
      .ite (fun _ => gsoError6_honest hp) fun _ => .ite (fun _ => .refused) fun _ =>
      .ite (fun _ => gsoSoftwareSegmentAndSendUdp6to4_honest) fun _ => ?_
    refine gsoMap6to4WithIcmp_honest hp (fun _ => rfl) fun r => ?_
    exact .after gsoIdent_uncounted.drops_eq (.emitted rfl)

private theorem gsoSoftwareSegmentAndSendUdp4to6_honest : Honest ans (gsoSoftwareSegmentAndSendUdp4to6 g d vhdr) := by
  cases vhdr with
  | none => exact .refused
  | some v =>
    unfold gsoSoftwareSegmentAndSendUdp4to6
    refine .ite (fun _ => .refused) fun _ => ?_
    split
    · exact .refused
    next ihl _ =>
    have hp : (gsoPkt4 d v ihl 17).dataProto ≠ 1 := transport_ne.2.1
    refine .ite (fun _ => .refused) fun _ => .ite (fun _ => gsoError4_honest hp) fun _ => .ite (fun _ => .refused)
      fun _ => .ite (fun _ => gsoError4_honest hp) fun _ => ?_
    exact gsoMap4to6WithIcmp_honest hp (fun _ => rfl) fun r => segmentLoop_honest _ _ _ _

private theorem gsoTranslateTcp4to6_honest : Honest ans (gsoTranslateTcp4to6 g d vhdr) := by
  cases vhdr with
  | none => exact .refused
  | some v =>
    unfold gsoTranslateTcp4to6
    refine .ite (fun _ => .refused) fun _ => .ite (fun _ => .refused) fun _ => .ite (fun _ => .refused) fun _ => ?_
    split
    · exact .refused
    next ihl _ =>
    have hp : (gsoPkt4 d v ihl 6).dataProto ≠ 1 := transport_ne.1
    refine .ite (fun _ => .refused) fun _ => .ite (fun _ => .refused) fun _ => .ite (fun _ => gsoError4_honest hp)
      fun _ => .ite (fun _ => gsoError4_honest hp) fun _ => ?_
    exact gsoMap4to6WithIcmp_honest hp (fun _ => rfl) fun r => .emitted rfl

private theorem gsoTranslateUdp4to6_honest : Honest ans (gsoTranslateUdp4to6 g d vhdr) := by
  cases vhdr with
  | none => exact .refused
  | some v =>
    unfold gsoTranslateUdp4to6
    refine .ite (fun _ => .refused) fun _ => .ite (fun _ => .refused) fun _ => .ite (fun _ => .refused) fun _ => ?_
    split
    · exact .refused
    next ihl _ =>
    have hp : (gsoPkt4 d v ihl 17).dataProto ≠ 1 := transport_ne.2.1
    refine .ite (fun _ => .refused) fun _ => .ite (fun _ => gsoError4_honest hp) fun _ => .ite (fun _ => .refused)
      fun _ => .ite (fun _ => .refused) fun _ => .ite (fun _ => gsoError4_honest hp) fun _ =>
      .ite (fun _ => gsoSoftwareSegmentAndSendUdp4to6_honest) fun _ => ?_
    exact gsoMap4to6WithIcmp_honest hp (fun _ => rfl) fun r => .emitted rfl

/-! ### Plain packets to IPv6 -/

/-- A parsed packet that `handle_ip4` has nothing against. -/
structure Valid4 (g : Gcfg) (p : Pkt4) : Prop where
  httl : p.ip4.ttl ≠ 0
  hheader : ipChecksum g.endian p.header = 0
  hlen : p.headerLen + p.data.length = p.ip4.length.toNat
  hicmp : p.dataProto = 1 → ipChecksum g.endian p.data = 0

/-- A fragment without data, of which nothing is left to send. -/
structure EmptyFragment (p : Pkt4) : Prop where
  hfragment : p.isFragment
  hdata : p.data = []
  hneeds : needsCsum p.vhdr = false
  hproto : p.noninitial = false → p.dataProto ∉ ([6, 17, 33, 136] : List Byte)

/-- A packet that is neither answered nor counted. -/
inductive Silent4 (g : Gcfg) (ans : (op : PktOp) → op.Ans) (p : Pkt4) : Prop where
  | self (hdest : p.ip4.dest = g.localAddr4) (hicmp : IcmpOther4 p)
  | expired (hdest : p.ip4.dest ≠ g.localAddr4) (httl : p.ip4.ttl = 1) (hicmp : IcmpOther4 p)
  | tooBig (hdest : p.ip4.dest ≠ g.localAddr4) (httl : p.ip4.ttl ≠ 1)
      (hmapped : Mapped ans p.ip4.dest ∧ Mapped ans p.ip4.src) (hicmp : p.dataProto = 1 ∧ p.icmp.type = 0)
      (hbig : tooBig4 g p)
  | empty (hdest : p.ip4.dest ≠ g.localAddr4) (httl : p.ip4.ttl ≠ 1)
      (hmapped : Mapped ans p.ip4.dest ∧ Mapped ans p.ip4.src) (hempty : EmptyFragment p)
  | error (hdest : p.ip4.dest ≠ g.localAddr4) (httl : p.ip4.ttl ≠ 1)
      (hicmp : p.dataProto = 1 ∧ p.icmp.type ≠ 8 ∧ p.icmp.type ≠ 0) (herror : ¬TranslatesError4 g ans p)

private theorem fragmentLoop_uncounted {ip6 : Ip6} {frag : Ip6Frag} {mf : Bool} (n : Nat) (off : BitVec 16)
    (fragSize : Nat) (data : List Byte) : Uncounted (fragmentLoop ip6 frag mf n off fragSize data) := by
  induction n generalizing off fragSize data with
  | zero => trivial
  | succ n ih =>
    exact Asks.ite (fun _ => trivial) fun _ => ⟨rfl, fun ret => Asks.ite (fun _ => trivial) fun _ => ih _ _ _⟩

private theorem fragmentLoop_accounted {ip6 : Ip6} {frag : Ip6Frag} {mf : Bool} (off : BitVec 16) (fragSize : Nat)
    (data : List Byte) : Accounted ans (fragmentLoop ip6 frag mf data.length off fragSize data) ↔ data ≠ [] := by
  rw [accounted_iff_written (fragmentLoop_uncounted _ _ _ _).drops_eq]
  cases data with
  | nil => exact iff_of_false (fun h => h rfl) (by simp)
  | cons b data => exact iff_of_true (List.cons_ne_nil _ _) (List.cons_ne_nil _ _)

private theorem putU16_ne_nil {e : Endian} {data : List Byte} {i : Nat} {v : BitVec 16} : putU16 e data i v ≠ [] := by
  unfold putU16 put
  simp [be16]

private theorem completeCsum_ne_nil {p : Pkt4} {ip6 : Ip6} (h : p.data ≠ []) : completeCsum g p ip6 ≠ [] := by
  unfold completeCsum
  split
  · exact putU16_ne_nil
  · exact h

theorem noninitial_isFragment {p : Pkt4} (h : p.noninitial) : p.isFragment := by
  unfold Pkt4.noninitial at h
  unfold Pkt4.isFragment
  rw [decide_eq_true_eq] at h ⊢
  exact fun hzero => h (and_eq_zero_of_and_or hzero)

/-- The payload of a fragment without data stays as it is, or is refused. -/
private theorem xlatePayload4to6_empty {p : Pkt4} (hp : p.dataProto ≠ 1) (hfragment : p.isFragment)
    (hdata : p.data = []) (ip6 : Ip6) : EmptyFragment p ∧ xlatePayload4to6 g p ip6 false = some p ∨
    ¬EmptyFragment p ∧ xlatePayload4to6 g p ip6 false = none := by
  have hkept : ∀ r, xlatePayload g (payloadCtx4to6 g p ip6) p.dataProto false ([], p.vhdr) = r →
      xlatePayload4to6 g p ip6 false = r.map fun r => { p with data := r.1, vhdr := r.2 } := by
    rintro r rfl
    unfold xlatePayload4to6
    rw [hdata]
  have hself : xlatePayload g (payloadCtx4to6 g p ip6) p.dataProto false ([], p.vhdr) = some ([], p.vhdr) →
      xlatePayload4to6 g p ip6 false = some p := by
    intro h
    rw [hkept _ h, Option.map_some, ← hdata]
  suffices h : EmptyFragment p ∧
      xlatePayload g (payloadCtx4to6 g p ip6) p.dataProto false ([], p.vhdr) = some ([], p.vhdr) ∨
      ¬EmptyFragment p ∧ xlatePayload g (payloadCtx4to6 g p ip6) p.dataProto false ([], p.vhdr) = none from
    h.imp (fun h => ⟨h.1, hself h.2⟩) fun h => ⟨h.1, (hkept none h.2).trans rfl⟩
  unfold xlatePayload
  by_cases hneeds : needsCsum p.vhdr
  · rw [if_pos ⟨hfragment, hneeds⟩]
    refine .inr ⟨fun h => ?_, rfl⟩
    rw [h.hneeds] at hneeds
    cases hneeds
  have hneeds : needsCsum p.vhdr = false := by simpa using hneeds
  dsimp only
  rw [hneeds, if_neg (by simp), show (payloadCtx4to6 g p ip6).noninitial = p.noninitial from rfl,
    show (payloadCtx4to6 g p ip6).icmpProto = 1 from rfl]
  by_cases hnon : p.noninitial
  · rw [if_pos hnon]
    exact .inl ⟨⟨hfragment, hdata, hneeds, fun h => absurd hnon (by simp [h])⟩, rfl⟩
  have hnon : p.noninitial = false := by simpa using hnon
  rw [hnon, if_neg Bool.false_ne_true, if_neg hp]
  have hrefused : p.dataProto ∈ ([6, 17, 33, 136] : List Byte) → ¬EmptyFragment p := fun h hempty =>
    hempty.hproto hnon h
  by_cases h17 : p.dataProto = 17
  · rw [if_pos h17]
    exact .inr ⟨hrefused (by rw [h17]; decide), rfl⟩
  rw [if_neg h17]
  by_cases h6 : p.dataProto = 6
  · rw [if_pos h6]
    exact .inr ⟨hrefused (by rw [h6]; decide), rfl⟩
  rw [if_neg h6]
  by_cases h33 : p.dataProto = 33 ∨ p.dataProto = 136
  · rw [if_pos h33]
    refine .inr ⟨hrefused ?_, ?_⟩
    · rcases h33 with h | h <;> rw [h] <;> decide
    · rcases h33 with h | h <;> rw [h] <;> rfl
  · rw [if_neg h33]
    refine .inl ⟨⟨hfragment, hdata, hneeds, fun _ => ?_⟩, rfl⟩
    rw [not_or] at h33
    simp only [List.mem_cons, List.not_mem_nil, or_false, not_or]
    exact ⟨h6, h17, h33⟩

private theorem xlate4to6Emit_accounted {p : Pkt4} {src dest : In6} {fragSize : Nat} {noFragHdr : Bool}
    (hicmp : p.dataProto = 1 → 8 ≤ p.data.length) (hwhole : noFragHdr ∨ p.data ≠ []) :
    Accounted ans (xlate4to6Emit g p src dest fragSize noFragHdr) := by
  unfold xlate4to6Emit
  dsimp only
  split
  · exact accounted_statsDrop _
  next q hq =>
  by_cases hno : noFragHdr
  · rw [if_pos hno]
    exact (accounted_iff_written rfl).2 (List.cons_ne_nil _ _)
  rw [if_neg hno]
  obtain ⟨r, hr, rfl⟩ := Option.map_eq_some_iff.1 hq
  have hlen : r.1.length = p.data.length := length_xlatePayload hr hicmp
  have hne : r.1 ≠ [] := by
    have := List.length_pos_of_ne_nil (hwhole.resolve_left hno)
    exact List.ne_nil_of_length_pos (by omega)
  exact (fragmentLoop_accounted _ _ _).2 (completeCsum_ne_nil hne)

/-- A fragment without data is counted only if its payload is refused. -/
private theorem xlate4to6Emit_empty {p : Pkt4} {src dest : In6} {fragSize : Nat} (hicmp : p.dataProto ≠ 1)
    (hfragment : p.isFragment) (hdata : p.data = []) :
    Accounted ans (xlate4to6Emit g p src dest fragSize false) ↔ ¬EmptyFragment p := by
  unfold xlate4to6Emit
  dsimp only
  generalize hip6 : ({ xlateHeader4to6 p src dest p.data.length with hopLimit := _ } : Ip6) = ip6
  rcases xlatePayload4to6_empty (g := g) hicmp hfragment hdata ip6 with ⟨hempty, hq⟩ | ⟨hempty, hq⟩
  · rw [hq]
    dsimp only
    rw [if_neg Bool.false_ne_true]
    refine iff_of_false ?_ (not_not.2 hempty)
    have hdata' : completeCsum g p ip6 = [] := by
      unfold completeCsum
      rw [hempty.hneeds, if_neg Bool.false_ne_true, hdata]
    rw [hdata']
    exact fun h => (fragmentLoop_accounted _ _ _).1 h rfl
  · rw [hq]
    exact iff_of_true (accounted_statsDrop _) hempty

private theorem xlate4to6IcmpError_uncounted (p : Pkt4) : Uncounted (xlate4to6IcmpError g p) := by
  have hmap : ∀ em, Uncounted (mapEm4to6 em) := by
    refine fun em => ⟨rfl, fun r => ?_⟩
    rcases r with _ | src
    · trivial
    · refine ⟨rfl, fun r => ?_⟩
      rcases r with _ | dest <;> trivial
  rw [xlate4to6IcmpError_eq]
  rcases quote4 p with _ | em
  · trivial
  refine (hmap em).bind fun r => ?_
  rcases r with _ | ⟨src, dest⟩
  · trivial
  dsimp only
  split
  · trivial
  split
  · trivial
  refine ⟨rfl, fun r => ⟨rfl, fun r => ?_⟩⟩
  rcases r with _ | dest'
  · trivial
  · exact ⟨rfl, fun _ => trivial⟩

private theorem accounted_map4 {addr4 : In4} {f : Except Error In6 → PktProg Unit} :
    Accounted ans (.call (.mapIp4ToIp6 addr4) f) ↔ Accounted ans (f (ans (.mapIp4ToIp6 addr4))) :=
  ⟨fun h => ⟨h.once, h.counted⟩, fun h => ⟨h.once, h.counted⟩⟩

private theorem xlate4to6Data_accounted {vhdr : Option VnetHdr} {p : Pkt4} (hp : Parsed4 d vhdr false p) :
    Accounted ans (xlate4to6Data g p) ↔ ¬((Mapped ans p.ip4.dest ∧ Mapped ans p.ip4.src) ∧
      (IcmpOther4 p ∧ tooBig4 g p ∨ EmptyFragment p)) := by
  unfold xlate4to6Data
  rw [accounted_map4]
  rcases hdest : ans (.mapIp4ToIp6 p.ip4.dest) with e | dest
  · refine iff_of_true ?_ fun h => ?_
    · cases e with
      | reject => exact accounted_rejected (hostSendIcmp4Error_uncounted 3 1 0 p)
      | drop => exact accounted_statsDrop _
      | local4 => exact accounted_statsDrop _
    · obtain ⟨a, ha⟩ := h.1.1
      rw [hdest] at ha
      cases ha
  dsimp only
  rw [accounted_map4]
  rcases hsrc : ans (.mapIp4ToIp6 p.ip4.src) with e | src
  · refine iff_of_true ?_ fun h => ?_
    · cases e with
      | reject => exact accounted_rejected (hostSendIcmp4Error_uncounted 3 10 0 p)
      | drop => exact accounted_statsDrop _
      | local4 => exact accounted_statsDrop _
    · obtain ⟨a, ha⟩ := h.1.2
      rw [hsrc] at ha
      cases ha
  dsimp only
  have hmapped : Mapped ans p.ip4.dest ∧ Mapped ans p.ip4.src := ⟨⟨dest, hdest⟩, src, hsrc⟩
  rw [and_iff_right hmapped]
  have hicmp : p.dataProto = 1 → 8 ≤ p.data.length := fun h => (hp.hicmp h).1
  by_cases hoff : p.ip4.flagsOffset &&& (ip4FMask ||| ip4FMf) = 0
  · have hnot : ¬EmptyFragment p := fun h => of_decide_eq_true h.hfragment hoff
    rw [if_pos hoff, or_iff_left hnot]
    by_cases hdf : p.ip4.flagsOffset &&& ip4FDf ≠ 0
    · rw [if_pos hdf]
      by_cases hbig : g.mtu < 40 + p.data.length
      · rw [if_pos hbig, accounted_error4, and_iff_left ⟨hoff, hdf, hbig⟩]
      · rw [if_neg hbig]
        exact iff_of_true (xlate4to6Emit_accounted hicmp (.inl rfl)) fun h => hbig h.2.2.2
    · rw [if_neg hdf]
      refine iff_of_true (xlate4to6Emit_accounted hicmp ?_) fun h => hdf h.2.2.1
      by_cases hlen : p.data.length ≤ (if g.mtu < g.ipv6OfflinkMtu then g.mtu else g.ipv6OfflinkMtu) - 40
      · exact .inl (decide_eq_true hlen)
      · exact .inr (List.ne_nil_of_length_pos (by omega))
  · have hfragment : p.isFragment := decide_eq_true hoff
    have hne : p.dataProto ≠ 1 := fun h => by
      rw [(hp.hicmp h).2 rfl] at hfragment
      cases hfragment
    rw [if_neg hoff, or_iff_right fun h => hoff h.2.1]
    by_cases hdata : p.data = []
    · rw [xlate4to6Emit_empty hne hfragment hdata]
    · exact iff_of_true (xlate4to6Emit_accounted hicmp (.inr hdata)) fun h => hdata h.hdata

/-- **A valid packet to IPv6** is accounted for, unless it is a silent one. -/
theorem handlePlain4_accounted : Accounted ans (handlePlain4 g d vhdr) ↔
    ¬∃ p, parseIp4 d vhdr false = .ok p ∧ Valid4 g p ∧ Silent4 g ans p := by
  unfold handlePlain4
  rcases hparse : parseIp4 d vhdr false with n | p
  · exact iff_of_true (accounted_statsDrop _) (by simp)
  have hp := parsed4_of_parseIp4 hparse
  have hsome : (∃ q, (Except.ok p : Except Nat Pkt4) = .ok q ∧ Valid4 g q ∧ Silent4 g ans q) ↔
      Valid4 g p ∧ Silent4 g ans p := by simp
  rw [hsome]
  dsimp only
  by_cases hheader : p.ip4.ttl = 0 ∨ ipChecksum g.endian p.header ≠ 0 ∨ p.headerLen + p.data.length ≠ p.ip4.length.toNat
  · rw [if_pos hheader]
    refine iff_of_true (accounted_statsDrop _) fun h => ?_
    rcases hheader with h' | h' | h'
    · exact h.1.httl h'
    · exact h' h.1.hheader
    · exact h' h.1.hlen
  rw [if_neg hheader]
  by_cases hcksum : p.dataProto = 1 ∧ ipChecksum g.endian p.data ≠ 0
  · rw [if_pos hcksum]
    exact iff_of_true (accounted_statsDrop _) fun h => hcksum.2 (h.1.hicmp hcksum.1)
  rw [if_neg hcksum]
  rw [not_or, not_or, not_not, not_not] at hheader
  rw [not_and, not_not] at hcksum
  rw [and_iff_right ⟨hheader.1, hheader.2.1, hheader.2.2, hcksum⟩]
  by_cases hself : p.ip4.dest = g.localAddr4
  · rw [if_pos hself]
    have hsilent : Silent4 g ans p ↔ IcmpOther4 p := by
      refine ⟨fun h => ?_, fun h => .self hself h⟩
      cases h with
      | self _ h => exact h
      | expired h | tooBig h | empty h | error h => exact absurd hself h
    rw [hsilent]
    by_cases hicmp : p.dataProto = 1
    · rw [if_pos hicmp]
      unfold hostHandleIcmp4 IcmpOther4
      by_cases htype : p.icmp.type = 8
      · rw [if_pos htype]
        exact iff_of_true ((accounted_iff_written rfl).2 (List.cons_ne_nil _ _)) fun h => h.2 htype
      · rw [if_neg htype]
        exact iff_of_false (fun h => (accounted_iff_written rfl).1 h rfl) (not_not.2 ⟨hicmp, htype⟩)
    · rw [if_neg hicmp, accounted_error4]
  rw [if_neg hself]
  by_cases hone : p.ip4.ttl = 1
  · rw [if_pos hone, accounted_error4]
    refine not_congr ⟨fun h => .expired hself hone h, fun h => ?_⟩
    cases h with
    | self h => exact absurd h hself
    | expired _ _ h => exact h
    | tooBig _ h | empty _ h | error _ h => exact absurd hone h
  rw [if_neg hone]
  by_cases hdata : p.dataProto ≠ 1 ∨ p.icmp.type = 8 ∨ p.icmp.type = 0
  · rw [if_pos hdata, xlate4to6Data_accounted hp]
    refine not_congr ⟨?_, fun h => ?_⟩
    · rintro ⟨hmapped, ⟨hother, hbig⟩ | hempty⟩
      · have hzero : p.icmp.type = 0 := by
          rcases hdata with h | h | h
          · exact absurd hother.1 h
          · exact absurd h hother.2
          · exact h
        exact .tooBig hself hone hmapped ⟨hother.1, hzero⟩ hbig
      · exact .empty hself hone hmapped hempty
    · cases h with
      | self h => exact absurd h hself
      | expired _ h => exact absurd h hone
      | tooBig _ _ hmapped hicmp hbig =>
        exact ⟨hmapped, .inl ⟨⟨hicmp.1, by rw [hicmp.2]; decide⟩, hbig⟩⟩
      | empty _ _ hmapped hempty => exact ⟨hmapped, .inr hempty⟩
      | error _ _ hicmp =>
        rcases hdata with h | h | h
        · exact absurd hicmp.1 h
        · exact absurd h hicmp.2.1
        · exact absurd h hicmp.2.2
  · rw [if_neg hdata]
    rw [not_or, not_or, not_not] at hdata
    rw [accounted_iff_written (xlate4to6IcmpError_uncounted p).drops_eq, xlate4to6IcmpError_written, iff_not_comm]
    refine ⟨fun h => ?_, fun h => .error hself hone hdata h⟩
    cases h with
    | self h => exact absurd h hself
    | expired _ h => exact absurd h hone
    | tooBig _ _ _ hicmp => exact absurd hicmp.2 hdata.2.2
    | empty _ _ _ hempty =>
      have := (hp.hicmp hdata.1).1
      rw [hempty.hdata] at this
      exact absurd this (by simp)
    | error _ _ _ h => exact h

/-! ### Plain packets to IPv4 -/

/-- A parsed packet that `handle_ip6` has nothing against. -/
structure Valid6 (g : Gcfg) (p : Pkt6) : Prop where
  hhops : p.ip6.hopLimit ≠ 0
  hlen : p.headerLen + p.data.length = p.ip6.payloadLength.toNat
  hicmp : p.dataProto = 58 →
    onesAdd (ipChecksum g.endian p.data) (ip6Checksum g.endian p.ip6 (BitVec.ofNat 32 p.data.length) 58) = 0

/-- A packet that is neither answered nor counted. -/
inductive Silent6 (g : Gcfg) (ans : (op : PktOp) → op.Ans) (p : Pkt6) : Prop where
  | self (hdest : p.ip6.dest = g.localAddr6) (hicmp : IcmpOther6 p)
  | expired (hdest : p.ip6.dest ≠ g.localAddr6) (hhops : p.ip6.hopLimit = 1) (hicmp : IcmpOther6 p)
  | tooBig (hdest : p.ip6.dest ≠ g.localAddr6) (hhops : p.ip6.hopLimit ≠ 1)
      (hmapped : Mapped6 ans p.ip6.dest false ∧ Mapped6 ans p.ip6.src true)
      (hicmp : p.dataProto = 58 ∧ p.icmp.type = 129) (hbig : g.mtu < 40 + p.data.length)
  | error (hdest : p.ip6.dest ≠ g.localAddr6) (hhops : p.ip6.hopLimit ≠ 1)
      (hicmp : p.dataProto = 58 ∧ p.icmp.type ≠ 128 ∧ p.icmp.type ≠ 129) (herror : ¬TranslatesError6 g ans p)

private theorem xlateHeader6to4_uncounted (p : Pkt6) (src dest : In4) (len : Nat) :
    Uncounted (xlateHeader6to4 p src dest len) :=
  (xlateHeader6to4_asks (P := fun op => op.isDrop = false) rfl).mono (fun _ h => h) fun _ _ => trivial

private theorem xlate6to4IcmpError_uncounted (p : Pkt6) : Uncounted (xlate6to4IcmpError g p) := by
  have hmap : ∀ em, Uncounted (mapEm6to4 em) := by
    refine fun em => ⟨rfl, fun r => ?_⟩
    rcases r with _ | src
    · trivial
    · refine ⟨rfl, fun r => ?_⟩
      rcases r with _ | dest <;> trivial
  rw [xlate6to4IcmpError_eq]
  rcases quote6 p with _ | em
  · trivial
  rw [Option.elim_some]
  unfold xlate6to4Quoted
  split
  · trivial
  refine (hmap em).bind fun r => ?_
  rcases r with _ | ⟨src, dest⟩
  · trivial
  refine (xlateHeader6to4_uncounted _ _ _ _).bind fun ip4 => ?_
  split
  · trivial
  refine ⟨rfl, fun r => ⟨rfl, fun r => ?_⟩⟩
  rcases r with _ | dest'
  · trivial
  · exact (xlateHeader6to4_uncounted _ _ _ _).bind fun _ => ⟨rfl, fun _ => trivial⟩

private theorem accounted_map6 {addr6 : In6} {dynAlloc : Bool} {f : Except Error In4 → PktProg Unit} :
    Accounted ans (.call (.mapIp6ToIp4 addr6 dynAlloc) f) ↔ Accounted ans (f (ans (.mapIp6ToIp4 addr6 dynAlloc))) :=
  ⟨fun h => ⟨h.once, h.counted⟩, fun h => ⟨h.once, h.counted⟩⟩

private theorem xlate6to4Emit_accounted {p : Pkt6} {src dest : In4} : Accounted ans (xlate6to4Emit g p src dest) := by
  unfold xlate6to4Emit
  have hzero : drops ans (xlateHeader6to4 p src dest p.data.length) = 0 :=
    (xlateHeader6to4_uncounted p src dest p.data.length).drops_eq
  rcases hq : xlatePayload6to4 g p { (xlateHeader6to4 p src dest p.data.length).answer ans with ttl := _ } false
    with _ | q
  · refine .of_counted ?_
    rw [drops_bind, hzero]
    dsimp only
    rw [hq]
    rfl
  · refine (accounted_iff_written ?_).2 fun hnil => ?_
    · rw [drops_bind, hzero]
      dsimp only
      rw [hq]
      rfl
    · rw [written_bind] at hnil
      dsimp only at hnil
      rw [hq] at hnil
      exact absurd (List.append_eq_nil_iff.1 hnil).2 (List.cons_ne_nil _ _)

private theorem xlate6to4Data_accounted {p : Pkt6} : Accounted ans (xlate6to4Data g p) ↔
    ¬((Mapped6 ans p.ip6.dest false ∧ Mapped6 ans p.ip6.src true) ∧ IcmpOther6 p ∧ g.mtu < 40 + p.data.length) := by
  unfold xlate6to4Data
  rw [accounted_map6]
  rcases hdest : ans (.mapIp6ToIp4 p.ip6.dest false) with e | dest
  · refine iff_of_true ?_ fun h => ?_
    · cases e with
      | reject => exact accounted_rejected (hostSendIcmp6Error_uncounted 1 0 0 p)
      | drop => exact accounted_statsDrop _
      | local4 => exact accounted_statsDrop _
    · obtain ⟨a, ha⟩ := h.1.1
      rw [hdest] at ha
      cases ha
  dsimp only
  rw [accounted_map6]
  rcases hsrc : ans (.mapIp6ToIp4 p.ip6.src true) with e | src
  · refine iff_of_true ?_ fun h => ?_
    · cases e with
      | reject => exact accounted_rejected (hostSendIcmp6Error_uncounted 1 5 0 p)
      | drop => exact accounted_statsDrop _
      | local4 => exact accounted_statsDrop _
    · obtain ⟨a, ha⟩ := h.1.2
      rw [hsrc] at ha
      cases ha
  dsimp only
  have hmapped : Mapped6 ans p.ip6.dest false ∧ Mapped6 ans p.ip6.src true := ⟨⟨dest, hdest⟩, src, hsrc⟩
  rw [and_iff_right hmapped]
  by_cases hbig : g.mtu < 40 + p.data.length
  · rw [if_pos hbig, accounted_error6, and_iff_left hbig]
  · rw [if_neg hbig]
    exact iff_of_true xlate6to4Emit_accounted fun h => hbig h.2

/-- **A valid packet to IPv4** is accounted for, unless it is a silent one. -/
theorem handlePlain6_accounted : Accounted ans (handlePlain6 g d vhdr) ↔
    ¬∃ p, parseIp6 d vhdr false = .ok p ∧ Valid6 g p ∧ Silent6 g ans p := by
  unfold handlePlain6
  rcases hparse : parseIp6 d vhdr false with p | n | ⟨ptr, q⟩
  rotate_left
  · exact iff_of_true (accounted_statsDrop _) (by simp)
  · refine iff_of_true (.of_counted ?_) (by simp)
    dsimp only
    rw [drops_bind, (hostSendIcmp6Error_uncounted 4 0 _ q).drops_eq]
    rfl
  have hsome : (∃ q, Parsed6.ok p = .ok q ∧ Valid6 g q ∧ Silent6 g ans q) ↔ Valid6 g p ∧ Silent6 g ans p := by simp
  rw [hsome]
  dsimp only
  by_cases hheader : p.ip6.hopLimit = 0 ∨ p.headerLen + p.data.length ≠ p.ip6.payloadLength.toNat
  · rw [if_pos hheader]
    refine iff_of_true (accounted_statsDrop _) fun h => ?_
    rcases hheader with h' | h'
    · exact h.1.hhops h'
    · exact h' h.1.hlen
  rw [if_neg hheader]
  by_cases hcksum : p.dataProto = 58 ∧
      onesAdd (ipChecksum g.endian p.data) (ip6Checksum g.endian p.ip6 (BitVec.ofNat 32 p.data.length) 58) ≠ 0
  · rw [if_pos hcksum]
    exact iff_of_true (accounted_statsDrop _) fun h => hcksum.2 (h.1.hicmp hcksum.1)
  rw [if_neg hcksum]
  rw [not_or, not_not] at hheader
  rw [not_and, not_not] at hcksum
  rw [and_iff_right ⟨hheader.1, hheader.2, hcksum⟩]
  by_cases hself : p.ip6.dest = g.localAddr6
  · rw [if_pos hself]
    have hsilent : Silent6 g ans p ↔ IcmpOther6 p := by
      refine ⟨fun h => ?_, fun h => .self hself h⟩
      cases h with
      | self _ h => exact h
      | expired h | tooBig h | error h => exact absurd hself h
    rw [hsilent]
    by_cases hicmp : p.dataProto = 58
    · rw [if_pos hicmp]
      unfold hostHandleIcmp6 IcmpOther6
      by_cases htype : p.icmp.type = 128
      · rw [if_pos htype]
        exact iff_of_true ((accounted_iff_written rfl).2 (List.cons_ne_nil _ _)) fun h => h.2 htype
      · rw [if_neg htype]
        exact iff_of_false (fun h => (accounted_iff_written rfl).1 h rfl) (not_not.2 ⟨hicmp, htype⟩)
    · rw [if_neg hicmp, accounted_error6]
  rw [if_neg hself]
  by_cases hone : p.ip6.hopLimit = 1
  · rw [if_pos hone, accounted_error6]
    refine not_congr ⟨fun h => .expired hself hone h, fun h => ?_⟩
    cases h with
    | self h => exact absurd h hself
    | expired _ _ h => exact h
    | tooBig _ h | error _ h => exact absurd hone h
  rw [if_neg hone]
  by_cases hdata : p.dataProto ≠ 58 ∨ p.icmp.type = 128 ∨ p.icmp.type = 129
  · rw [if_pos hdata, xlate6to4Data_accounted]
    refine not_congr ⟨?_, fun h => ?_⟩
    · rintro ⟨hmapped, hother, hbig⟩
      have htype : p.icmp.type = 129 := by
        rcases hdata with h | h | h
        · exact absurd hother.1 h
        · exact absurd h hother.2
        · exact h
      exact .tooBig hself hone hmapped ⟨hother.1, htype⟩ hbig
    · cases h with
      | self h => exact absurd h hself
      | expired _ h => exact absurd h hone
      | tooBig _ _ hmapped hicmp hbig => exact ⟨hmapped, ⟨hicmp.1, by rw [hicmp.2]; decide⟩, hbig⟩
      | error _ _ hicmp =>
        rcases hdata with h | h | h
        · exact absurd hicmp.1 h
        · exact absurd h hicmp.2.1
        · exact absurd h hicmp.2.2
  · rw [if_neg hdata]
    rw [not_or, not_or, not_not] at hdata
    rw [accounted_iff_written (xlate6to4IcmpError_uncounted p).drops_eq, xlate6to4IcmpError_written, iff_not_comm]
    refine ⟨fun h => ?_, fun h => .error hself hone hdata h⟩
    cases h with
    | self h => exact absurd h hself
    | expired _ h => exact absurd h hone
    | tooBig _ _ _ hicmp => exact absurd hicmp.2 hdata.2.2
    | error _ _ _ h => exact h

/-! ### The two entry points -/

/-- **No silent loss**: a packet is counted as dropped at most once, and exactly once if nothing is written for it,
unless it is a plain packet with one of the few ends that are only logged. -/
theorem no_silent_loss (g : Gcfg) (offload : Bool) (d : List Byte) (vhdr : Option VnetHdr)
    (ans : (op : PktOp) → op.Ans) :
    (Accounted ans (handleIp4 g offload d vhdr) ↔
      ¬(isGso vhdr = false ∧ ∃ p, parseIp4 d vhdr false = .ok p ∧ Valid4 g p ∧ Silent4 g ans p)) ∧
    (Accounted ans (handleIp6 g offload d vhdr) ↔
      ¬(isGso vhdr = false ∧ ∃ p, parseIp6 d vhdr false = .ok p ∧ Valid6 g p ∧ Silent6 g ans p)) := by
  unfold handleIp4 handleIp6
  by_cases hgso : isGso vhdr
  · rw [if_pos hgso, if_pos hgso, hgso]
    constructor
    · refine iff_of_true (accounted_dropRefused ?_) (by simp)
      exact .ite (fun _ => gsoTranslateTcp4to6_honest) fun _ =>
        .ite (fun _ => gsoTranslateUdp4to6_honest) fun _ => .refused
    · refine iff_of_true (accounted_dropRefused ?_) (by simp)
      exact .ite (fun _ => gsoTranslateTcp6to4_honest) fun _ =>
        .ite (fun _ => gsoTranslateUdp6to4_honest) fun _ => .refused
  · have hgso : isGso vhdr = false := by simpa using hgso
    rw [hgso, if_neg Bool.false_ne_true, if_neg Bool.false_ne_true, handlePlain4_accounted, handlePlain6_accounted,
      and_iff_right rfl, and_iff_right rfl]
    exact ⟨Iff.rfl, Iff.rfl⟩

/-- An echo reply to the translator itself. -/
def replyToSelf : List Byte :=
  [0x45, 0x00, 0x00, 0x1c, 0x00, 0x00, 0x00, 0x00, 0x40, 0x01, 0xf9, 0x15, 0xc0, 0x00, 0x02, 0x21, 0xc0, 0xa8, 0xff,
    0x01, 0x00, 0x00, 0xff, 0xfd, 0x00, 0x01, 0x00, 0x01]

/-- It is neither answered nor counted. -/
theorem not_accounted_reply : written sampleAns (handleIp4 sampleGcfg true replyToSelf none) = [] ∧
    drops sampleAns (handleIp4 sampleGcfg true replyToSelf none) = 0 ∧
    ¬Accounted sampleAns (handleIp4 sampleGcfg true replyToSelf none) ∧
    ∃ p, parseIp4 replyToSelf none false = .ok p ∧ p.icmp.type = 0 := by
  have hwritten : written sampleAns (handleIp4 sampleGcfg true replyToSelf none) = [] := by decide +kernel
  have hdrops : drops sampleAns (handleIp4 sampleGcfg true replyToSelf none) = 0 := by decide +kernel
  refine ⟨hwritten, hdrops, fun h => ?_, ⟨_, rfl, by decide +kernel⟩⟩
  have := h.counted hwritten
  omega

end Tayga
