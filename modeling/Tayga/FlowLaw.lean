import Tayga.DispatchOrder
import Tayga.FlowReads

/-!
# The two directions of a flow, and the fragments of a datagram

What a flow and a datagram are is said of the packets alone: the upper-layer header a packet carries, behind any IPv4
options or any chain of extension headers (`Upper`), the packets of the two directions of a flow (`Reverse`), and the
fragments of one datagram (`SameDatagram`).  The classifier follows the same chain, so both directions get one flow
hash and all fragments one key.
-/

namespace Tayga

/-! ### The packets -/

/-- The extension headers from the one of protocol `proto` at `off` up to the header of protocol `proto'` at `off'`.
A fragment header is gone through in a first fragment only. -/
inductive ExtChain (p : Mem) : Byte → Nat → Byte → Nat → Prop where
  | here {proto off} : ExtChain p proto off proto off
  | options {proto off proto' off'} (hproto : proto ∈ [0, 43, 60])
      (h : ExtChain p (p off) (off + ((p (off + 1)).toNat + 1) * 8) proto' off') : ExtChain p proto off proto' off'
  | auth {off proto' off'} (h : ExtChain p (p off) (off + ((p (off + 1)).toNat + 2) * 4) proto' off') :
      ExtChain p 51 off proto' off'
  | fragment {off proto' off'} (hfirst : flowBe16 p (off + 2) &&& 0xfff8 = 0)
      (h : ExtChain p (p off) (off + 8) proto' off') : ExtChain p 44 off proto' off'

/-- `Upper p family proto off src dst`: the packet goes from `src` to `dst` and has its upper-layer header, of protocol
`proto`, at `off`. -/
inductive Upper (p : Mem) : Byte → Byte → Nat → List Byte → List Byte → Prop where
  | ip4 (hversion : p 0 >>> 4 = 4) (hfirst : flowBe16 p 6 &&& 0x1fff = 0) :
      Upper p 4 (p 9) ((p 0 &&& 15).toNat * 4) (p.read 12 4) (p.read 16 4)
  | ip6 {proto off} (hversion : p 0 >>> 4 = 6) (hchain : ExtChain p (p 6) 40 proto off)
      (hproto : proto ∉ [0, 43, 44, 51, 60]) : Upper p 6 proto off (p.read 8 16) (p.read 24 16)

/-- TCP, UDP, DCCP, SCTP and UDP-Lite. -/
def portProtocols : List Byte := [6, 17, 33, 132, 136]

/-- Echo requests and replies, by protocol and type. -/
def echoMessages : List (Byte × Byte) := [(1, 8), (1, 0), (58, 128), (58, 129)]

/-- The packets `p` and `q`, of `n` and `m` bytes, belong to the two directions of one flow. -/
inductive Reverse (p : Mem) (n : Nat) (q : Mem) (m : Nat) : Prop where
  | ports {family proto off off' src dst} (hp : Upper p family proto off src dst)
      (hq : Upper q family proto off' dst src) (hproto : proto ∈ portProtocols)
      (hsrc : p.read off 2 = q.read (off' + 2) 2) (hdst : p.read (off + 2) 2 = q.read off' 2)
  | echo {family proto off off' src dst} (hp : Upper p family proto off src dst)
      (hq : Upper q family proto off' dst src) (hpe : (proto, p off) ∈ echoMessages)
      (hqe : (proto, q off') ∈ echoMessages) (hn : off + 8 ≤ n) (hm : off' + 8 ≤ m)
      (hident : p.read (off + 4) 2 = q.read (off' + 4) 2)
  | other {family proto off off' src dst} (hp : Upper p family proto off src dst)
      (hq : Upper q family proto off' dst src) (hproto : proto ∉ portProtocols) (hicmp : proto ∉ [1, 58])

/-- Both packets are fragments, and of one datagram: they agree in addresses, identification and in the protocol
behind the headers that every fragment repeats. -/
inductive SameDatagram (p q : Mem) : Prop where
  | ip4 (hp : p 0 >>> 4 = 4) (hq : q 0 >>> 4 = 4) (hpf : flowBe16 p 6 &&& 0x3fff ≠ 0)
      (hqf : flowBe16 q 6 &&& 0x3fff ≠ 0) (haddrs : p.read 12 8 = q.read 12 8) (hident : p.read 4 2 = q.read 4 2)
      (hproto : p 9 = q 9)
  | ip6 {off off'} (hp : p 0 >>> 4 = 6) (hq : q 0 >>> 4 = 6) (hpc : ExtChain p (p 6) 40 44 off)
      (hqc : ExtChain q (q 6) 40 44 off') (hpf : flowBe16 p (off + 2) &&& 0xfff9 ≠ 0)
      (hqf : flowBe16 q (off' + 2) &&& 0xfff9 ≠ 0) (haddrs : p.read 8 32 = q.read 8 32)
      (hident : p.read (off + 4) 4 = q.read (off' + 4) 4) (hnext : p off = q off')

/-! ### The order of the endpoints -/

private theorem memcmpLe_total (l m : List Byte) : memcmpLe l m ∨ memcmpLe m l := by
  induction l generalizing m with
  | nil => simp [memcmpLe]
  | cons a l ih =>
    cases m with
    | nil => simp [memcmpLe]
    | cons b m =>
      by_cases hab : a = b
      · subst hab
        simpa [memcmpLe] using ih m
      · have hba : ¬b = a := fun h => hab h.symm
        simp only [memcmpLe, hab, hba, if_false, BitVec.ult, decide_eq_true_eq]
        have hne : a.toNat ≠ b.toNat := fun h => hab (BitVec.eq_of_toNat_eq h)
        omega

private theorem memcmpLe_antisymm {l m : List Byte} (hlen : l.length = m.length) (h : memcmpLe l m)
    (h' : memcmpLe m l) :
    l = m := by
  induction l generalizing m with
  | nil => exact (List.eq_nil_of_length_eq_zero hlen.symm).symm
  | cons a l ih =>
    cases m with
    | nil => cases hlen
    | cons b m =>
      by_cases hab : a = b
      · subst hab
        simp only [memcmpLe, if_true] at h h'
        rw [ih (Nat.succ.inj hlen) h h']
      · have hba : ¬b = a := fun h => hab h.symm
        simp only [memcmpLe, hab, hba, if_false, BitVec.ult, decide_eq_true_eq] at h h'
        omega

/-- **The flow hash does not depend on which endpoint sends.** -/
theorem flowKeyHash_comm {h g : FlowHeaders} {sp dp : List Byte} (hfamily : g.family = h.family)
    (hproto : g.proto = h.proto) (hsrc : g.src = h.dst) (hdst : g.dst = h.src)
    (hlen : (h.src ++ sp).length = (h.dst ++ dp).length) : flowKeyHash h sp dp = flowKeyHash g dp sp := by
  unfold flowKeyHash
  rw [hfamily, hproto, hsrc, hdst]
  generalize h.src ++ sp = s at hlen ⊢
  generalize h.dst ++ dp = d at hlen ⊢
  have hpair : (if memcmpLe s d then s ++ d else d ++ s) = if memcmpLe d s then d ++ s else s ++ d := by
    by_cases hsd : memcmpLe s d
    · by_cases hds : memcmpLe d s
      · rw [memcmpLe_antisymm hlen hsd hds]
      · rw [if_pos hsd, if_neg hds]
    · have hds : memcmpLe d s := (memcmpLe_total s d).resolve_left hsd
      rw [if_neg hsd, if_pos hds]
  dsimp only
  rw [hpair]

/-! ### The walk over the extension headers -/

variable {p : Mem}

/-- What one step of the walk does: a fragment header, not seen before, sets the fragment fields; the others are
skipped. -/
theorem flowExtStep_cases {seen seen' : Bool} {h h' : FlowHeaders} (hs : flowExtStep p seen h = some (seen', h')) :
    (h.proto = 44 ∧ seen = false ∧ seen' = true ∧
      h' = { h with
        off := h.off + 8
        proto := p h.off
        fragmented := flowBe16 p (h.off + 2) &&& 0xfff9 ≠ 0
        first := flowBe16 p (h.off + 2) &&& 0xfff8 = 0
        ident := if flowBe16 p (h.off + 2) &&& 0xfff9 ≠ 0 then p.read (h.off + 4) 4 else h.ident
        keyProto := if flowBe16 p (h.off + 2) &&& 0xfff9 ≠ 0 then p h.off else h.keyProto }) ∨
    (h.proto ≠ 44 ∧ seen' = seen ∧
      h' = { h with
        off := h.off + if h.proto = 51 then ((p (h.off + 1)).toNat + 2) * 4 else ((p (h.off + 1)).toNat + 1) * 8
        proto := p h.off }) := by
  unfold flowExtStep at hs
  split at hs
  · cases hs
  · dsimp only at hs
    split at hs
    · rename_i hproto
      split at hs
      · cases hs
      · rename_i hseen
        split at hs
        · cases hs
        split at hs
        · cases hs
        split at hs
        · cases hs
        · simp only [Option.some.injEq, Prod.mk.injEq] at hs
          obtain ⟨rfl, rfl⟩ := hs
          refine Or.inl ⟨hproto, ?_, rfl, ?_⟩
          · cases seen
            · rfl
            · exact absurd (Or.inl rfl) hseen
          · simp only [decide_eq_true_eq]
    · rename_i hproto
      generalize (if h.proto = 51 then ((p (h.off + 1)).toNat + 2) * 4
        else ((p (h.off + 1)).toNat + 1) * 8) = len at hs ⊢
      split at hs
      · cases hs
      · simp only [Option.some.injEq, Prod.mk.injEq] at hs
        obtain ⟨rfl, rfl⟩ := hs
        exact Or.inr ⟨hproto, rfl, rfl⟩

/-- The walk leaves the addresses, the family and the end of the packet alone. -/
structure FlowHeaders.SameEnds (h g : FlowHeaders) : Prop where
  family : g.family = h.family
  len : g.len = h.len
  src : g.src = h.src
  dst : g.dst = h.dst

theorem FlowHeaders.SameEnds.rfl {h : FlowHeaders} : h.SameEnds h := ⟨Eq.refl _, Eq.refl _, Eq.refl _, Eq.refl _⟩

theorem FlowHeaders.SameEnds.trans {h g k : FlowHeaders} (hg : h.SameEnds g) (gk : g.SameEnds k) : h.SameEnds k :=
  ⟨gk.family.trans hg.family, gk.len.trans hg.len, gk.src.trans hg.src, gk.dst.trans hg.dst⟩

theorem flowExtStep_sameEnds {seen seen' : Bool} {h h' : FlowHeaders}
    (hs : flowExtStep p seen h = some (seen', h')) : h.SameEnds h' := by
  obtain ⟨-, -, -, rfl⟩ | ⟨-, -, rfl⟩ := flowExtStep_cases hs
  · exact ⟨rfl, rfl, rfl, rfl⟩
  · exact ⟨rfl, rfl, rfl, rfl⟩

/-- A walk that is not at its end makes a step, and goes on unless the step went into a later fragment. -/
theorem flowExt_cases {count : Nat} {seen : Bool} {h r : FlowHeaders} (hr : flowExt p count seen h = some r) :
    (isFlowExt h.proto = false ∧ r = h) ∨
    (isFlowExt h.proto ∧ ∃ seen' h' count', count = count' + 1 ∧ flowExtStep p seen h = some (seen', h') ∧
      ((h'.first ∧ flowExt p count' seen' h' = some r) ∨ (h'.first = false ∧ r = h'))) := by
  cases count with
  | zero =>
    unfold flowExt at hr
    split at hr
    · cases hr
    · rename_i he
      exact Or.inl ⟨by simpa using he, (Option.some.inj hr).symm⟩
  | succ count =>
    unfold flowExt at hr
    split at hr
    · rename_i he
      right
      rcases hstep : flowExtStep p seen h with _ | ⟨seen', h'⟩
      · simp [hstep] at hr
      · simp only [hstep] at hr
        refine ⟨he, seen', h', count, rfl, rfl, ?_⟩
        split at hr
        · rename_i hfirst
          exact Or.inl ⟨hfirst, hr⟩
        · rename_i hfirst
          exact Or.inr ⟨by simpa using hfirst, (Option.some.inj hr).symm⟩
    · rename_i he
      exact Or.inl ⟨by simpa using he, (Option.some.inj hr).symm⟩

private theorem flowExt_sameEnds {count : Nat} {seen : Bool} {h r : FlowHeaders}
    (hr : flowExt p count seen h = some r) :
    h.SameEnds r := by
  induction count generalizing seen h with
  | zero =>
    obtain ⟨-, rfl⟩ | ⟨-, seen', h', count', hc, -⟩ := flowExt_cases hr
    · exact .rfl
    · cases hc
  | succ count ih =>
    obtain ⟨-, rfl⟩ | ⟨-, seen', h', count', hc, hs, hrest⟩ := flowExt_cases hr
    · exact .rfl
    · obtain rfl := Nat.succ.inj hc
      obtain ⟨-, hr⟩ | ⟨-, rfl⟩ := hrest
      · exact (flowExtStep_sameEnds hs).trans (ih hr)
      · exact flowExtStep_sameEnds hs

/-- **The walk follows the chain**: it comes to the header at the end of a chain, with all fragments so far first. -/
theorem flowExt_chain {proto proto' : Byte} {off off' : Nat} (hc : ExtChain p proto off proto' off') {count : Nat}
    {seen : Bool} {h r : FlowHeaders} (hproto : h.proto = proto) (hoff : h.off = off) (hfirst : h.first)
    (hr : flowExt p count seen h = some r) :
    ∃ count' seen' h', h'.proto = proto' ∧ h'.off = off' ∧ h'.first ∧ flowExt p count' seen' h' = some r ∧
      (seen → seen') := by
  induction hc generalizing count seen h with
  | here => exact ⟨count, seen, h, hproto, hoff, hfirst, hr, fun hs => hs⟩
  | options hin _ ih =>
    rename_i proto off _ _ _
    subst hproto hoff
    have hext : isFlowExt h.proto := by
      simp only [List.mem_cons, List.not_mem_nil, or_false] at hin
      rcases hin with hin | hin | hin <;> rw [hin] <;> rfl
    have h44 : h.proto ≠ 44 ∧ h.proto ≠ 51 := by
      simp only [List.mem_cons, List.not_mem_nil, or_false] at hin
      rcases hin with hin | hin | hin <;> rw [hin] <;> decide
    obtain ⟨he, -⟩ | ⟨-, seen', h', count', -, hs, hrest⟩ := flowExt_cases hr
    · rw [hext] at he
      cases he
    obtain ⟨h44', -⟩ | ⟨-, rfl, rfl⟩ := flowExtStep_cases hs
    · exact absurd h44' h44.1
    obtain ⟨-, hr⟩ | ⟨hf, -⟩ := hrest
    · refine ih ?_ ?_ ?_ hr
      · rfl
      · exact congrArg (h.off + ·) (if_neg h44.2)
      · exact hfirst
    · rw [hfirst] at hf
      cases hf
  | auth _ ih =>
    subst hoff
    obtain ⟨he, -⟩ | ⟨-, seen', h', count', -, hs, hrest⟩ := flowExt_cases hr
    · rw [hproto] at he
      cases he
    obtain ⟨h44, -⟩ | ⟨-, rfl, rfl⟩ := flowExtStep_cases hs
    · rw [hproto] at h44
      cases h44
    obtain ⟨-, hr⟩ | ⟨hf, -⟩ := hrest
    · refine ih ?_ ?_ ?_ hr
      · rfl
      · exact congrArg (h.off + ·) (if_pos hproto)
      · exact hfirst
    · rw [hfirst] at hf
      cases hf
  | fragment hzero _ ih =>
    subst hoff
    obtain ⟨he, -⟩ | ⟨-, seen', h', count', -, hs, hrest⟩ := flowExt_cases hr
    · rw [hproto] at he
      cases he
    obtain ⟨-, rfl, rfl, rfl⟩ | ⟨h44, -⟩ := flowExtStep_cases hs
    · obtain ⟨-, hr⟩ | ⟨hf, -⟩ := hrest
      · obtain ⟨count', seen', h', h1, h2, h3, h4, -⟩ := ih rfl rfl (decide_eq_true hzero) hr
        exact ⟨count', seen', h', h1, h2, h3, h4, fun hs => nomatch hs⟩
      · exact absurd hzero (of_decide_eq_false hf)
    · exact absurd hproto h44

/-- Behind a fragment header the walk leaves the fragment fields alone. -/
theorem flowExt_seen {count : Nat} {h r : FlowHeaders} (hr : flowExt p count true h = some r) :
    r.fragmented = h.fragmented ∧ r.ident = h.ident ∧ r.keyProto = h.keyProto := by
  induction count generalizing h with
  | zero =>
    obtain ⟨-, rfl⟩ | ⟨-, seen', h', count', hc, -⟩ := flowExt_cases hr
    · exact ⟨rfl, rfl, rfl⟩
    · cases hc
  | succ count ih =>
    obtain ⟨-, rfl⟩ | ⟨-, seen', h', count', hc, hs, hrest⟩ := flowExt_cases hr
    · exact ⟨rfl, rfl, rfl⟩
    · obtain rfl := Nat.succ.inj hc
      obtain ⟨-, hseen, -⟩ | ⟨-, rfl, rfl⟩ := flowExtStep_cases hs
      · cases hseen
      · obtain ⟨-, hr⟩ | ⟨-, rfl⟩ := hrest
        · have hin := ih hr
          exact hin
        · exact ⟨rfl, rfl, rfl⟩

/-! ### The headers of an accepted packet -/

variable {n : Nat}

theorem flowHeaders4_some {depth : Nat} {h : FlowHeaders} (hh : flowHeaders4 p n depth = some h) :
    h = { family := 4
          len := min (flowBe16 p 2).toNat n
          off := (p 0 &&& 15).toNat * 4
          proto := p 9
          src := p.read 12 4 ++ List.replicate 12 0
          dst := p.read 16 4 ++ List.replicate 12 0
          fragmented := flowBe16 p 6 &&& 0x3fff ≠ 0
          first := flowBe16 p 6 &&& 0x1fff = 0
          ident := p.read 4 2 ++ [0, 0]
          keyProto := p 9 } ∧ (depth = 0 → (flowBe16 p 2).toNat = n) := by
  unfold flowHeaders4 at hh
  dsimp only at hh
  split at hh
  · cases hh
  split at hh
  · cases hh
  · rename_i htotal
    split at hh
    · cases hh
    split at hh
    · cases hh
    · refine ⟨(Option.some.inj hh).symm, fun hd => ?_⟩
      by_contra hne
      exact htotal (Or.inr ⟨hd, hne⟩)

theorem flowHeaders6_some {depth : Nat} {h : FlowHeaders} (hh : flowHeaders6 p n depth = some h) :
    flowExt p 8 false
      { family := 6
        len := min (40 + (flowBe16 p 4).toNat) n
        off := 40
        proto := p 6
        src := p.read 8 16
        dst := p.read 24 16
        fragmented := false
        first := true
        ident := [0, 0, 0, 0]
        keyProto := 0 } = some h ∧ (depth = 0 → 40 + (flowBe16 p 4).toNat = n) := by
  unfold flowHeaders6 at hh
  dsimp only at hh
  split at hh
  · cases hh
  split at hh
  · cases hh
  · rename_i htotal
    refine ⟨hh, fun hd => ?_⟩
    by_contra hne
    exact htotal (Or.inr ⟨hd, hne⟩)

private theorem flowHeaders_ip4 {depth : Nat} {h : FlowHeaders} (hh : flowHeaders p n depth = some h)
    (hversion : p 0 >>> 4 = 4) : flowHeaders4 p n depth = some h := by
  unfold flowHeaders at hh
  split at hh
  · cases hh
  · simpa [hversion] using hh

private theorem flowHeaders_ip6 {depth : Nat} {h : FlowHeaders} (hh : flowHeaders p n depth = some h)
    (hversion : p 0 >>> 4 = 6) : flowHeaders6 p n depth = some h := by
  unfold flowHeaders at hh
  have h4 : ¬p 0 >>> 4 = 4 := by rw [hversion]; decide
  split at hh
  · cases hh
  · simpa [h4, hversion] using hh

/-- Addresses are padded to the length of IPv6 ones. -/
def padded (l : List Byte) : List Byte := l ++ List.replicate (16 - l.length) 0

/-- **What the classifier finds is the upper-layer header of the packet.** -/
theorem Upper.headers {family proto : Byte} {off : Nat} {src dst : List Byte} (hu : Upper p family proto off src dst)
    {h : FlowHeaders} (hh : flowHeaders p n 0 = some h) :
    h.family = family ∧ h.proto = proto ∧ h.off = off ∧ h.len = n ∧ h.first ∧ h.src = padded src ∧
      h.dst = padded dst := by
  cases hu with
  | ip4 hversion hfirst =>
    obtain ⟨rfl, hlen⟩ := flowHeaders4_some (flowHeaders_ip4 hh hversion)
    refine ⟨rfl, rfl, rfl, ?_, decide_eq_true hfirst, ?_, ?_⟩
    · have := hlen rfl
      simp only [this, Nat.min_self]
    · simp [padded, Mem.read]
    · simp [padded, Mem.read]
  | ip6 hversion hchain hproto =>
    obtain ⟨hwalk, hlen⟩ := flowHeaders6_some (flowHeaders_ip6 hh hversion)
    have hlen := hlen rfl
    have hends := flowExt_sameEnds hwalk
    obtain ⟨count, seen, g, hgp, hgo, hgf, hg, -⟩ := flowExt_chain hchain rfl rfl rfl hwalk
    -- the chain ends at a header that is no extension header, and so does the walk
    have hstop : isFlowExt g.proto = false := by
      rw [hgp]
      simp only [List.mem_cons, List.not_mem_nil, or_false, not_or] at hproto
      obtain ⟨h0, h43, h44, h51, h60⟩ := hproto
      simp only [isFlowExt, Bool.or_eq_false_iff, decide_eq_false_iff_not]
      exact ⟨⟨⟨⟨h0, h43⟩, h60⟩, h51⟩, h44⟩
    obtain ⟨-, rfl⟩ | ⟨hext, -⟩ := flowExt_cases hg
    · refine ⟨hends.family, hgp, hgo, ?_, hgf, ?_, ?_⟩
      · rw [hends.len]
        simp only [hlen, Nat.min_self]
      · rw [hends.src]
        simp [padded, Mem.read]
      · rw [hends.dst]
        simp [padded, Mem.read]
    · rw [hstop] at hext
      cases hext

/-! ### The two directions -/

theorem quotesPacket_of_echo {proto type : Byte} (h : isFlowEcho proto type) : quotesPacket proto type = false := by
  simp only [isFlowEcho, Bool.or_eq_true, Bool.and_eq_true, decide_eq_true_eq] at h
  rcases h with ⟨rfl, rfl | rfl⟩ | ⟨rfl, rfl | rfl⟩ <;> rfl

theorem hasPorts_of_echo {proto type : Byte} (h : isFlowEcho proto type) : hasPorts proto = false := by
  simp only [isFlowEcho, Bool.or_eq_true, Bool.and_eq_true, decide_eq_true_eq] at h
  rcases h with ⟨rfl, -⟩ | ⟨rfl, -⟩ <;> rfl

section
variable {quoted : Mem → Nat → Option FlowPacket} {a : FlowPacket}

/-- The flow hash of a packet with ports. -/
private theorem flowParseDepth_ports {h : FlowHeaders} (hh : flowHeaders p n 0 = some h) (hfirst : h.first)
    (hports : hasPorts h.proto) (ha : flowParseDepth quoted p n 0 = some a) :
    a.flowHash = flowKeyHash h (p.read h.off 2) (p.read (h.off + 2) 2) := by
  unfold flowParseDepth at ha
  simp only [hh] at ha
  rw [if_neg (by simp [hfirst]), if_pos hports] at ha
  split at ha
  · cases ha
  · obtain rfl := Option.some.inj ha
    rfl

/-- The flow hash of an echo message. -/
private theorem flowParseDepth_echo {h : FlowHeaders} (hh : flowHeaders p n 0 = some h) (hfirst : h.first)
    (hecho : isFlowEcho h.proto (p h.off)) (hicmp : h.proto = 1 ∨ h.proto = 58) (hlen : h.off + 8 ≤ h.len)
    (ha : flowParseDepth quoted p n 0 = some a) :
    a.flowHash = flowKeyHash h (p.read (h.off + 4) 2) (p.read (h.off + 4) 2) := by
  unfold flowParseDepth at ha
  simp only [hh] at ha
  rw [if_neg (by simp [hfirst]), if_neg (by simp [hasPorts_of_echo hecho]), if_pos ⟨hicmp, hlen⟩,
    if_neg (by simp [quotesPacket_of_echo hecho])] at ha
  simp only [Option.filter_none, if_pos hecho] at ha
  obtain rfl := Option.some.inj ha
  rfl

/-- The flow hash of a packet with neither ports nor an ICMP header. -/
private theorem flowParseDepth_other {h : FlowHeaders} (hh : flowHeaders p n 0 = some h) (hfirst : h.first)
    (hports : hasPorts h.proto = false) (hicmp : ¬(h.proto = 1 ∨ h.proto = 58))
    (ha : flowParseDepth quoted p n 0 = some a) : a.flowHash = flowKeyHash h [0, 0] [0, 0] := by
  unfold flowParseDepth at ha
  simp only [hh] at ha
  rw [if_neg (by simp [hfirst]), if_neg (by simp [hports]), if_neg (fun h => hicmp h.1)] at ha
  obtain rfl := Option.some.inj ha
  rfl

private theorem flowParse_headers (ha : flowParse p n = some a) : ∃ h, flowHeaders p n 0 = some h := by
  obtain ⟨h, hh, -⟩ := flowParseDepth_headers ha
  exact ⟨h, hh⟩

end

private theorem length_padded {l : List Byte} (h : l.length ≤ 16) : (padded l).length = 16 := by
  simp only [padded, List.length_append, List.length_replicate]
  omega

private theorem Mem.length_read (p : Mem) (k n : Nat) : (p.read k n).length = n := by
  simp [Mem.read]

/-- Both addresses of a packet are of one length, at most sixteen bytes. -/
private theorem Upper.length_addrs {family proto : Byte} {off : Nat} {src dst : List Byte}
    (hu : Upper p family proto off src dst) : src.length ≤ 16 ∧ dst.length ≤ 16 := by
  cases hu with
  | ip4 => simp [Mem.length_read]
  | ip6 => simp [Mem.length_read]

private theorem hasPorts_iff {proto : Byte} : hasPorts proto ↔ proto ∈ portProtocols := by
  simp [hasPorts, portProtocols, or_assoc]

private theorem isFlowEcho_of_mem {proto type : Byte} (h : (proto, type) ∈ echoMessages) : isFlowEcho proto type := by
  simp only [echoMessages, List.mem_cons, Prod.mk.injEq, List.not_mem_nil, or_false] at h
  rcases h with ⟨rfl, rfl⟩ | ⟨rfl, rfl⟩ | ⟨rfl, rfl⟩ | ⟨rfl, rfl⟩ <;> rfl

theorem icmp_of_echo {proto type : Byte} (h : isFlowEcho proto type) : proto = 1 ∨ proto = 58 := by
  simp only [isFlowEcho, Bool.or_eq_true, Bool.and_eq_true, decide_eq_true_eq] at h
  rcases h with ⟨h, -⟩ | ⟨h, -⟩
  · exact Or.inl h
  · exact Or.inr h

/-- The flow keys of the two directions are the same, so are their hashes. -/
private theorem Upper.flowKeyHash_eq {q : Mem} {m : Nat} {family proto : Byte} {off off' : Nat}
    {src dst sp dp : List Byte}
    (hp : Upper p family proto off src dst) (hq : Upper q family proto off' dst src) {h g : FlowHeaders}
    (hh : flowHeaders p n 0 = some h) (hg : flowHeaders q m 0 = some g) (hlen : sp.length = dp.length) :
    flowKeyHash h sp dp = flowKeyHash g dp sp := by
  obtain ⟨hf, hpr, -, -, -, hs, hd⟩ := hp.headers hh
  obtain ⟨gf, gpr, -, -, -, gs, gd⟩ := hq.headers hg
  apply flowKeyHash_comm
  · rw [gf, hf]
  · rw [gpr, hpr]
  · rw [gs, hd]
  · rw [gd, hs]
  · rw [hs, hd, List.length_append, List.length_append, length_padded hp.length_addrs.1,
      length_padded hp.length_addrs.2, hlen]

/-- **Both directions of a flow have the same flow hash.** -/
theorem Reverse.flowHash_eq {q : Mem} {m : Nat} (hr : Reverse p n q m) {a b : FlowPacket}
    (ha : flowParse p n = some a) (hb : flowParse q m = some b) : a.flowHash = b.flowHash := by
  obtain ⟨h, hh⟩ := flowParse_headers ha
  obtain ⟨g, hg⟩ := flowParse_headers hb
  unfold flowParse at ha hb
  cases hr with
  | ports hp hq hproto hsrc hdst =>
    obtain ⟨-, hpr, ho, -, hf, -, -⟩ := hp.headers hh
    obtain ⟨-, gpr, go, -, gf, -, -⟩ := hq.headers hg
    have hports := hasPorts_iff.2 hproto
    rw [flowParseDepth_ports hh hf (hpr ▸ hports) ha, flowParseDepth_ports hg gf (gpr ▸ hports) hb, ho, go, hsrc, hdst]
    apply hp.flowKeyHash_eq hq hh hg
    rw [Mem.length_read, Mem.length_read]
  | echo hp hq hpe hqe hn hm hident =>
    obtain ⟨-, hpr, ho, hl, hf, -, -⟩ := hp.headers hh
    obtain ⟨-, gpr, go, gl, gf, -, -⟩ := hq.headers hg
    have hecho := isFlowEcho_of_mem hpe
    have gecho := isFlowEcho_of_mem hqe
    subst hpr ho hl go gl
    rw [flowParseDepth_echo hh hf hecho (icmp_of_echo hecho) hn ha,
      flowParseDepth_echo hg gf (gpr ▸ gecho) (icmp_of_echo (gpr ▸ gecho)) hm hb, hident]
    apply hp.flowKeyHash_eq hq hh hg
    rw [Mem.length_read]
  | other hp hq hproto hicmp =>
    obtain ⟨-, hpr, -, -, hf, -, -⟩ := hp.headers hh
    obtain ⟨-, gpr, -, -, gf, -, -⟩ := hq.headers hg
    have hports : hasPorts h.proto = false := by
      rw [← Bool.not_eq_true, hasPorts_iff, hpr]
      exact hproto
    simp only [List.mem_cons, List.not_mem_nil, or_false] at hicmp
    rw [flowParseDepth_other hh hf hports (hpr ▸ hicmp) ha,
      flowParseDepth_other hg gf (by rw [gpr, ← hpr]; exact hports) (gpr ▸ hicmp) hb]
    exact hp.flowKeyHash_eq hq hh hg rfl

/-! ### The fragments of a datagram -/

/-- The fields of the fragment header at the end of a chain are what the walk returns. -/
private theorem flowExt_fragment {off : Nat} {h r : FlowHeaders} {count : Nat} (hc : ExtChain p h.proto h.off 44 off)
    (hfirst : h.first) (hfrag : flowBe16 p (off + 2) &&& 0xfff9 ≠ 0) (hr : flowExt p count false h = some r) :
    r.fragmented ∧ r.ident = p.read (off + 4) 4 ∧ r.keyProto = p off := by
  obtain ⟨count', seen, g, hgp, hgo, -, hg, -⟩ := flowExt_chain hc rfl rfl hfirst hr
  obtain ⟨he, -⟩ | ⟨-, seen', g', count'', -, hs, hrest⟩ := flowExt_cases hg
  · rw [hgp] at he
    cases he
  obtain ⟨-, -, rfl, rfl⟩ | ⟨h44, -⟩ := flowExtStep_cases hs
  · rw [hgo] at hrest
    simp only [hfrag, ne_eq, not_false_iff, if_true, decide_true] at hrest
    obtain ⟨-, hr⟩ | ⟨-, rfl⟩ := hrest
    · have h := flowExt_seen hr
      exact h
    · exact ⟨rfl, rfl, rfl⟩
  · exact absurd hgp h44

private theorem read_split {q : Mem} {k i j : Nat} (h : p.read k (i + j) = q.read k (i + j)) :
    p.read k i = q.read k i ∧ p.read (k + i) j = q.read (k + i) j := by
  have split : ∀ r : Mem, r.read k (i + j) = r.read k i ++ r.read (k + i) j := by
    intro r
    simp [Mem.read, List.range_add, Nat.add_assoc]
  rw [split p, split q] at h
  exact List.append_inj h (by rw [Mem.length_read, Mem.length_read])

/-- **All fragments of one datagram have the same key.** -/
theorem SameDatagram.fragmentKey_eq {q : Mem} {m : Nat} (hd : SameDatagram p q) {a b : FlowPacket}
    (ha : flowParse p n = some a) (hb : flowParse q m = some b) : a.fragmentKey = b.fragmentKey := by
  obtain ⟨h, hh, hkey, -⟩ := flowParseDepth_headers ha
  obtain ⟨g, hg, gkey, -⟩ := flowParseDepth_headers hb
  rw [hkey, gkey]
  change h.fragmentKey = g.fragmentKey
  cases hd with
  | ip4 hp hq hpf hqf haddrs hident hproto =>
    obtain ⟨rfl, -⟩ := flowHeaders4_some (flowHeaders_ip4 hh hp)
    obtain ⟨rfl, -⟩ := flowHeaders4_some (flowHeaders_ip4 hg hq)
    obtain ⟨hsrc, hdst⟩ := read_split (k := 12) (i := 4) (j := 4) haddrs
    have hdst : p.read 16 4 = q.read 16 4 := hdst
    unfold FlowHeaders.fragmentKey
    rw [if_pos (decide_eq_true hpf), if_pos (decide_eq_true hqf)]
    simp only [hident, hproto, hsrc, hdst]
  | ip6 hp hq hpc hqc hpf hqf haddrs hident hnext =>
    obtain ⟨hwalk, -⟩ := flowHeaders6_some (flowHeaders_ip6 hh hp)
    obtain ⟨gwalk, -⟩ := flowHeaders6_some (flowHeaders_ip6 hg hq)
    obtain ⟨hsrc, hdst⟩ := read_split (k := 8) (i := 16) (j := 16) haddrs
    have hends := flowExt_sameEnds hwalk
    have gends := flowExt_sameEnds gwalk
    obtain ⟨hfr, hid, hk⟩ := flowExt_fragment hpc rfl hpf hwalk
    obtain ⟨gfr, gid, gk⟩ := flowExt_fragment hqc rfl hqf gwalk
    unfold FlowHeaders.fragmentKey
    rw [if_pos hfr, if_pos gfr, hid, gid, hk, gk, hends.family, gends.family, hends.src, gends.src, hends.dst,
      gends.dst, hident, hnext]
    simp only [hsrc, hdst]

/-! ### The classifier -/

/-- **The flow classifier**: the two directions of a flow have one hash, the fragments of a datagram one key, and the
walk over the headers, that into a quoted packet included, is a finite program that reads only inside the packet. -/
theorem flow_classifier :
    (∀ (p : Mem) (n : Nat) (q : Mem) (m : Nat) (a b : FlowPacket), Reverse p n q m → flowParse p n = some a →
      flowParse q m = some b → a.flowHash = b.flowHash) ∧
    (∀ (p : Mem) (n : Nat) (q : Mem) (m : Nat) (a b : FlowPacket), SameDatagram p q → flowParse p n = some a →
      flowParse q m = some b → a.fragmentKey = b.fragmentKey) ∧
    ∀ n : Nat, (readParse n).Asks (fun k => k < n) (fun _ => True) ∧ ∀ p, (readParse n).answer p = flowParse p n := by
  refine ⟨?_, ?_, ?_⟩
  · intro p n q m a b hr ha hb
    exact hr.flowHash_eq ha hb
  · intro p n q m a b hd ha hb
    exact hd.fragmentKey_eq ha hb
  · intro n
    exact ⟨asks_readParse n, fun p => answer_readParse p n⟩

/-- The first fragment of a UDP query. -/
def queryFragment : List Byte :=
  [0x45, 0, 0, 28, 0, 7, 0x20, 0, 64, 17, 0, 0, 10, 0, 0, 1, 10, 0, 0, 2, 4, 0xd2, 0, 53, 0, 16, 0, 0]

/-- The last fragment of the same query. -/
def queryRest : List Byte :=
  [0x45, 0, 0, 28, 0, 7, 0, 1, 64, 17, 0, 0, 10, 0, 0, 1, 10, 0, 0, 2, 1, 2, 3, 4, 5, 6, 7, 8]

/-- A reply to the query, with IPv4 options. -/
def queryReply : List Byte :=
  [0x46, 0, 0, 32, 0, 9, 0, 0, 64, 17, 0, 0, 10, 0, 0, 2, 10, 0, 0, 1, 1, 1, 1, 0, 0, 53, 4, 0xd2, 0, 8, 0, 0]

theorem flow_classifier_query : ∃ a b c, flowParse (Mem.ofList queryFragment) 28 = some a ∧
    flowParse (Mem.ofList queryReply) 32 = some b ∧ flowParse (Mem.ofList queryRest) 28 = some c ∧
    a.flowHash = b.flowHash ∧ a.fragmentKey = c.fragmentKey := by
  obtain ⟨a, ha⟩ := Option.isSome_iff_exists.1 (by decide : (flowParse (Mem.ofList queryFragment) 28).isSome)
  obtain ⟨b, hb⟩ := Option.isSome_iff_exists.1 (by decide : (flowParse (Mem.ofList queryReply) 32).isSome)
  obtain ⟨c, hc⟩ := Option.isSome_iff_exists.1 (by decide : (flowParse (Mem.ofList queryRest) 28).isSome)
  refine ⟨a, b, c, ha, hb, hc, ?_, ?_⟩
  · have hr : Reverse (Mem.ofList queryFragment) 28 (Mem.ofList queryReply) 32 :=
      .ports (.ip4 (by decide) (by decide)) (.ip4 (by decide) (by decide)) (by decide) (by decide) (by decide)
    exact flow_classifier.1 _ _ _ _ a b hr ha hb
  · have hd : SameDatagram (Mem.ofList queryFragment) (Mem.ofList queryRest) :=
      .ip4 (by decide) (by decide) (by decide) (by decide) (by decide) (by decide) (by decide)
    exact flow_classifier.2.1 _ _ _ _ a c hd ha hc

end Tayga
