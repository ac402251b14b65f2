import Tayga.FlowLaw

/-!
# ICMP errors and their flow

An ICMP error quotes the beginning of a packet (`QuotesPrefix`), and the classifier walks through the headers of the
quote once more, with the length of the quote for that of the packet.  The walk finds the same headers
(`flowHeaders_quote`) unless the packet is a fragment and its payload is cut at a length that is no multiple of eight:
the alignment of a whole fragment is asked of the quote as well.
-/

namespace Tayga

variable {p p' : Mem} {n m : Nat}

/-! ### The walk over the headers of a quote -/

/-- What a pointer to a quote sees is the beginning of the packet. -/
def AgreeBelow (m : Nat) (p p' : Mem) : Prop := ∀ i < m, p' i = p i

theorem AgreeBelow.read (h : AgreeBelow m p p') {k j : Nat} (hk : k + j ≤ m) : p'.read k j = p.read k j := by
  unfold Mem.read
  refine List.map_congr_left fun i hi => h _ ?_
  have := List.mem_range.1 hi
  omega

theorem AgreeBelow.flowBe16 (h : AgreeBelow m p p') {k : Nat} (hk : k + 2 ≤ m) :
    flowBe16 p' k = flowBe16 p k := by
  unfold Tayga.flowBe16
  rw [h k (by omega), h (k + 1) (by omega)]

/-- A first fragment has the flag for more fragments. -/
private theorem more_of_first {frag : BitVec 16} (hfirst : frag &&& 0xfff8 = 0) (hfrag : frag &&& 0xfff9 ≠ 0) :
    frag &&& 1 ≠ 0 := by
  intro h1
  have hmask : (0xfff9 : BitVec 16) = 0xfff8 ||| 1 := by decide
  rw [hmask, BitVec.and_or_distrib_left, hfirst, h1] at hfrag
  exact hfrag rfl

/-- A step of the walk goes forward by at least eight bytes. -/
private theorem flowExtStep_off {seen seen' : Bool} {h h' : FlowHeaders}
    (hs : flowExtStep p seen h = some (seen', h')) :
    h.off + 8 ≤ h'.off := by
  obtain ⟨-, -, -, rfl⟩ | ⟨-, -, rfl⟩ := flowExtStep_cases hs
  · exact Nat.le_refl _
  · dsimp only
    split <;> omega

private theorem flowExt_off {count : Nat} {seen : Bool} {h r : FlowHeaders} (hr : flowExt p count seen h = some r) :
    h.off ≤ r.off := by
  induction count generalizing seen h with
  | zero =>
    obtain ⟨-, rfl⟩ | ⟨-, seen', h', count', hc, -⟩ := flowExt_cases hr
    · exact Nat.le_refl _
    · cases hc
  | succ count ih =>
    obtain ⟨-, rfl⟩ | ⟨-, seen', h', count', hc, hs, hrest⟩ := flowExt_cases hr
    · exact Nat.le_refl _
    · obtain rfl := Nat.succ.inj hc
      have hoff := flowExtStep_off hs
      obtain ⟨-, hr⟩ | ⟨-, rfl⟩ := hrest
      · have := ih hr
        omega
      · omega

/-- **One extension header of a quote** is passed as in the packet, unless it is the header of a fragment that is cut
off its alignment. -/
theorem flowExtStep_quote {seen seen' : Bool} {h h' : FlowHeaders} (hs : flowExtStep p seen h = some (seen', h'))
    (hlen : h.len = n) (hm : m ≤ n) (hoff : h'.off ≤ m) (hfirst : h'.first) (hp : AgreeBelow m p p') :
    flowExtStep p' seen { h with len := m } =
      if h.proto = 44 ∧ h'.fragmented ∧ ¬8 ∣ n - m then none else some (seen', { h' with len := m }) := by
  have hforward := flowExtStep_off hs
  unfold flowExtStep at hs ⊢
  dsimp only at hs ⊢
  rw [hp h.off (by omega), hp (h.off + 1) (by omega), hp.flowBe16 (k := h.off + 2) (by omega),
    hp.read (k := h.off + 4) (j := 4) (by omega)]
  split at hs
  · cases hs
  next hstart =>
  rw [if_neg (by omega)]
  split at hs
  next h44 =>
    rw [if_pos h44]
    split at hs
    · cases hs
    next hseen =>
    split at hs
    · cases hs
    next hreserved =>
    split at hs
    · cases hs
    next halign =>
    split at hs
    · cases hs
    next hend =>
    simp only [Option.some.injEq, Prod.mk.injEq] at hs
    obtain ⟨rfl, rfl⟩ := hs
    dsimp only at hfirst hoff
    have hzero : flowBe16 p (h.off + 2) &&& 0xfff8 = 0 := of_decide_eq_true hfirst
    rw [if_neg (by simp only [not_or] at hseen ⊢; exact ⟨hseen.1, by omega⟩), if_neg hreserved]
    by_cases hfrag : flowBe16 p (h.off + 2) &&& 0xfff9 ≠ 0
    · have hmore := more_of_first hzero hfrag
      have hwhole : (n - h.off - 8) % 8 = 0 := by
        by_contra hne
        exact halign ⟨decide_eq_true hfrag, hmore, hlen ▸ hne⟩
      by_cases hcut : 8 ∣ n - m
      · have haligned : (m - h.off - 8) % 8 = 0 := by omega
        exact (if_neg fun hc => hc.2.2 haligned).trans ((if_neg (by omega)).trans (if_neg fun hc => hc.2.2 hcut).symm)
      · have haligned : (m - h.off - 8) % 8 ≠ 0 := by omega
        exact (if_pos ⟨decide_eq_true hfrag, hmore, haligned⟩).trans (if_pos ⟨h44, decide_eq_true hfrag, hcut⟩).symm
    · have hnot : ¬decide (flowBe16 p (h.off + 2) &&& 0xfff9 ≠ 0) = true := fun hc => hfrag (of_decide_eq_true hc)
      exact (if_neg fun hc => hnot hc.1).trans ((if_neg (by omega)).trans (if_neg fun hc => hnot hc.2.1).symm)
  next h44 =>
    rw [if_neg h44]
    generalize (if h.proto = 51 then ((p (h.off + 1)).toNat + 2) * 4
      else ((p (h.off + 1)).toNat + 1) * 8) = len at hs ⊢
    split at hs
    · cases hs
    next hend =>
    simp only [Option.some.injEq, Prod.mk.injEq] at hs
    obtain ⟨rfl, rfl⟩ := hs
    dsimp only at hoff
    rw [if_neg (by omega), if_neg (fun hc => h44 hc.1)]

/-- Behind a fragment header, or in front of one, the walk through a quote finds what the walk through the packet
finds, unless the packet is a fragment and the quote is cut off its alignment. -/
private theorem flowExt_quote {count : Nat} {seen : Bool} {h r : FlowHeaders} (hr : flowExt p count seen h = some r)
    (hlen : h.len = n) (hm : m ≤ n) (hoff : r.off ≤ m) (hfirst : r.first) (hseen : seen = false → h.fragmented = false)
    (hp : AgreeBelow m p p') :
    flowExt p' count seen { h with len := m } =
      if seen = false ∧ r.fragmented ∧ ¬8 ∣ n - m then none else some { r with len := m } := by
  induction count generalizing seen h with
  | zero =>
    obtain ⟨he, rfl⟩ | ⟨-, seen', h', count', hc, -⟩ := flowExt_cases hr
    · unfold flowExt
      rw [if_neg (by simpa using he), if_neg]
      rintro ⟨hs, hf, -⟩
      rw [hseen hs] at hf
      cases hf
    · cases hc
  | succ count ih =>
    unfold flowExt
    obtain ⟨he, rfl⟩ | ⟨he, seen', h', count', hc, hs, hrest⟩ := flowExt_cases hr
    · rw [if_neg (by simpa using he), if_neg]
      rintro ⟨hs, hf, -⟩
      rw [hseen hs] at hf
      cases hf
    · obtain rfl := Nat.succ.inj hc
      obtain ⟨hfirst', hr'⟩ : h'.first ∧ flowExt p count seen' h' = some r := by
        obtain h1 | ⟨hf, rfl⟩ := hrest
        · exact h1
        · rw [hf] at hfirst
          cases hfirst
      have hoff' : h'.off ≤ m := Nat.le_trans (flowExt_off hr') hoff
      have hends := flowExtStep_sameEnds hs
      have hstep := flowExtStep_quote hs hlen hm hoff' hfirst' hp
      dsimp only at hstep ⊢
      rw [if_pos he, hstep]
      obtain ⟨h44, rfl, rfl, -⟩ | ⟨h44, rfl, rfl⟩ := flowExtStep_cases hs
      · have hfr := (flowExt_seen hr').1
        rw [hfr]
        by_cases hcut : h'.fragmented ∧ ¬8 ∣ n - m
        · rw [if_pos ⟨h44, hcut⟩, if_pos ⟨rfl, hcut⟩]
        · rw [if_neg (fun hc => hcut hc.2), if_neg (fun hc => hcut hc.2)]
          dsimp only
          rw [if_pos hfirst', ih hr' (hends.len.trans hlen) (fun h => absurd h.symm Bool.false_ne_true),
            if_neg (by simp), hfr]
      · rw [if_neg (fun hc => h44 hc.1)]
        dsimp only
        rw [if_pos hfirst']
        exact ih hr' (hends.len.trans hlen) hseen

/-! ### The headers of a quote -/

private theorem flowHeaders4_off {depth : Nat} {h : FlowHeaders} (hh : flowHeaders4 p n depth = some h) :
    20 ≤ h.off := by
  obtain ⟨rfl, -⟩ := flowHeaders4_some hh
  unfold flowHeaders4 at hh
  dsimp only at hh ⊢
  split at hh
  · cases hh
  · omega

/-- An IPv4 packet that is unfragmented or a first fragment, and its first `m` bytes. -/
private theorem flowHeaders4_quote {h : FlowHeaders} (hh : flowHeaders4 p n 0 = some h) (hm : m ≤ n)
    (hoff : h.off ≤ m) (hfirst : h.first) (hp : AgreeBelow m p p') :
    flowHeaders4 p' m 1 = if h.fragmented ∧ ¬8 ∣ n - m then none else some { h with len := m } := by
  have h20 := flowHeaders4_off hh
  unfold flowHeaders4 at hh ⊢
  dsimp only at hh ⊢
  rw [hp 0 (by omega), hp.flowBe16 (k := 2) (by omega), hp.flowBe16 (k := 6) (by omega), hp 9 (by omega),
    hp.read (k := 12) (j := 4) (by omega), hp.read (k := 16) (j := 4) (by omega), hp.read (k := 4) (j := 2) (by omega)]
  generalize (p 0 &&& 15).toNat * 4 = off at hh ⊢
  generalize (flowBe16 p 2).toNat = total at hh ⊢
  generalize flowBe16 p 6 = frag at hh ⊢
  split at hh
  · cases hh
  next hstart =>
  split at hh
  · cases hh
  next htotal =>
  have htotal : total = n := by omega
  split at hh
  · cases hh
  next hreserved =>
  split at hh
  · cases hh
  next halign =>
  obtain rfl := Option.some.inj hh
  dsimp only at hoff hfirst
  have hzero : frag &&& 0x1fff = 0 := of_decide_eq_true hfirst
  rw [if_neg (by omega), if_neg (by omega), if_neg hreserved, htotal, Nat.min_eq_right hm]
  have hor : (0x3fff : BitVec 16) = 0x1fff ||| 0x2000 := by decide
  by_cases hfrag : frag &&& 0x3fff ≠ 0
  · have hmore : frag &&& 0x2000 ≠ 0 := by
      intro h2
      rw [hor, BitVec.and_or_distrib_left, hzero, h2] at hfrag
      exact hfrag rfl
    have hdf : ¬frag &&& 0x4000 ≠ 0 := fun hdf => halign ⟨decide_eq_true hfrag, .inl hdf⟩
    have hwhole : (n - off) % 8 = 0 := by
      by_contra hne
      refine halign ⟨decide_eq_true hfrag, .inr ⟨hmore, ?_⟩⟩
      rwa [htotal, Nat.min_self]
    by_cases hcut : 8 ∣ n - m
    · have haligned : (m - off) % 8 = 0 := by omega
      refine (if_neg fun hc => ?_).trans (if_neg fun hc => hc.2 hcut).symm
      exact hc.2.elim hdf fun h2 => h2.2 haligned
    · have haligned : (m - off) % 8 ≠ 0 := by omega
      exact (if_pos ⟨decide_eq_true hfrag, .inr ⟨hmore, haligned⟩⟩).trans
        (if_pos ⟨decide_eq_true hfrag, hcut⟩).symm
  · have hnot : ¬decide (frag &&& 0x3fff ≠ 0) = true := fun hc => hfrag (of_decide_eq_true hc)
    exact (if_neg fun hc => hnot hc.1).trans (if_neg fun hc => hnot hc.1).symm

/-- The same for an IPv6 packet. -/
private theorem flowHeaders6_quote {h : FlowHeaders} (hh : flowHeaders6 p n 0 = some h) (hm : m ≤ n)
    (hoff : h.off ≤ m) (hfirst : h.first) (hp : AgreeBelow m p p') :
    flowHeaders6 p' m 1 = if h.fragmented ∧ ¬8 ∣ n - m then none else some { h with len := m } := by
  obtain ⟨hwalk, htotal⟩ := flowHeaders6_some hh
  have h40 : 40 ≤ h.off := flowExt_off hwalk
  have htotal := htotal rfl
  unfold flowHeaders6 at hh ⊢
  dsimp only at hh ⊢
  split at hh
  · cases hh
  split at hh
  · cases hh
  next hpayload =>
  rw [hp.flowBe16 (k := 4) (by omega), hp 6 (by omega), hp.read (k := 8) (j := 16) (by omega),
    hp.read (k := 24) (j := 16) (by omega), if_neg (by omega), if_neg (by simp at hpayload ⊢; exact hpayload.1),
    htotal, Nat.min_eq_right hm]
  rw [htotal, Nat.min_self] at hwalk
  have hquote := flowExt_quote hwalk rfl hm hoff hfirst (fun _ => rfl) hp
  simpa using hquote

/-- **The headers of a quote** are those of the packet, unless the packet is a fragment and the quote ends at a length
that a fragment could not have. -/
theorem flowHeaders_quote {h : FlowHeaders} (hh : flowHeaders p n 0 = some h) (hm : m ≤ n) (hoff : h.off < m)
    (hfirst : h.first) (hp : AgreeBelow m p p') :
    flowHeaders p' m 1 = if h.fragmented ∧ ¬8 ∣ n - m then none else some { h with len := m } := by
  have h0 : p' 0 = p 0 := hp 0 (by omega)
  unfold flowHeaders at hh ⊢
  split at hh
  · cases hh
  rw [if_neg (by omega), h0]
  split at hh
  next h4 =>
    rw [if_pos h4]
    exact flowHeaders4_quote hh hm (by omega) hfirst hp
  next h4 =>
    split at hh
    next h6 =>
      rw [if_neg h4, if_pos h6]
      exact flowHeaders6_quote hh hm (by omega) hfirst hp
    · cases hh

/-- A packet that is not fragmented counts as a first fragment. -/
private theorem flowExt_first {count : Nat} {seen : Bool} {h r : FlowHeaders} (hr : flowExt p count seen h = some r)
    (hh : h.fragmented = false → h.first) : r.fragmented = false → r.first := by
  induction count generalizing seen h with
  | zero =>
    obtain ⟨-, rfl⟩ | ⟨-, seen', h', count', hc, -⟩ := flowExt_cases hr
    · exact hh
    · cases hc
  | succ count ih =>
    obtain ⟨-, rfl⟩ | ⟨-, seen', h', count', hc, hs, hrest⟩ := flowExt_cases hr
    · exact hh
    obtain rfl := Nat.succ.inj hc
    have hstep : h'.fragmented = false → h'.first := by
      obtain ⟨-, -, -, rfl⟩ | ⟨-, -, rfl⟩ := flowExtStep_cases hs
      · intro hf
        have hzero : flowBe16 p (h.off + 2) &&& 0xfff9 = 0 := not_not.1 (of_decide_eq_false hf)
        have hmask : (0xfff9 : BitVec 16) = 0xfff8 ||| 1 := by decide
        rw [hmask, BitVec.and_or_distrib_left] at hzero
        exact decide_eq_true (BitVec.or_eq_zero_iff.1 hzero).1
      · exact hh
    obtain ⟨-, hr⟩ | ⟨-, rfl⟩ := hrest
    · exact ih hr hstep
    · exact hstep

private theorem flowHeaders_first {depth : Nat} {h : FlowHeaders} (hh : flowHeaders p n depth = some h) :
    h.fragmented = false → h.first := by
  unfold flowHeaders at hh
  split at hh
  · cases hh
  split at hh
  · obtain ⟨rfl, -⟩ := flowHeaders4_some hh
    intro hf
    have hzero : flowBe16 p 6 &&& 0x3fff = 0 := not_not.1 (of_decide_eq_false hf)
    have hmask : (0x3fff : BitVec 16) = 0x1fff ||| 0x2000 := by decide
    rw [hmask, BitVec.and_or_distrib_left] at hzero
    exact decide_eq_true (BitVec.or_eq_zero_iff.1 hzero).1
  split at hh
  · exact flowExt_first (flowHeaders6_some hh).1 fun _ => rfl
  · cases hh

/-! ### The key of a quote -/

/-- A message that quotes a packet is an ICMP message, and no echo message. -/
private theorem quotesPacket_cases {proto type : Byte} (h : quotesPacket proto type) :
    (proto = 1 ∨ proto = 58) ∧ hasPorts proto = false ∧ isFlowEcho proto type = false := by
  have hproto : proto = 1 ∨ proto = 58 := by
    unfold quotesPacket at h
    simp only [Bool.or_eq_true, Bool.and_eq_true, decide_eq_true_eq] at h
    exact h.imp (fun h => h.1) fun h => h.1
  refine ⟨hproto, ?_, ?_⟩
  · rcases hproto with rfl | rfl <;> rfl
  · by_contra hne
    rw [Bool.not_eq_false] at hne
    rw [quotesPacket_of_echo hne] at h
    cases h

section
variable {quoted : Mem → Nat → Option FlowPacket} {depth : Nat} {q : FlowPacket}

/-- Where the key of a packet with a transport key comes from: its ports, its echo identifier, or what it quotes. -/
private theorem transport_cases {h : FlowHeaders} (hh : flowHeaders p n depth = some h)
    (hq : flowParseDepth quoted p n depth = some q) (ht : q.transport) : h.first ∧ q.fragmented = h.fragmented ∧
      ((hasPorts h.proto ∧ q.flowHash = flowKeyHash h (p.read h.off 2) (p.read (h.off + 2) 2)) ∨
      (isFlowEcho h.proto (p h.off) ∧ q.flowHash = flowKeyHash h (p.read (h.off + 4) 2) (p.read (h.off + 4) 2)) ∨
      quotesPacket h.proto (p h.off)) := by
  unfold flowParseDepth at hq
  simp only [hh] at hq
  split at hq
  · obtain rfl := Option.some.inj hq
    cases ht
  next hlater =>
  have hfirst : h.first := by
    cases hf : h.fragmented with
    | false => exact flowHeaders_first hh hf
    | true => simpa [hf] using hlater
  split at hq
  next hports =>
    split at hq
    · cases hq
    · obtain rfl := Option.some.inj hq
      exact ⟨hfirst, rfl, .inl ⟨hports, rfl⟩⟩
  next hports =>
    split at hq
    next hicmp =>
      by_cases hquotes : quotesPacket h.proto (p h.off)
      · have hfrag : q.fragmented = h.fragmented := by
          split at hq
          · obtain rfl := Option.some.inj hq
            rfl
          split at hq <;> obtain rfl := Option.some.inj hq <;> rfl
        exact ⟨hfirst, hfrag, .inr (.inr hquotes)⟩
      · rw [if_neg (fun hc => hquotes hc.2)] at hq
        simp only [Option.filter_none] at hq
        split at hq
        next hecho =>
          obtain rfl := Option.some.inj hq
          exact ⟨hfirst, rfl, .inr (.inl ⟨hecho, rfl⟩)⟩
        · obtain rfl := Option.some.inj hq
          cases ht
    · obtain rfl := Option.some.inj hq
      cases ht

/-- A quote that is aligned has the key of the packet, unless the packet is an ICMP error itself; other quotes have no
transport key. -/
private theorem flowParseDepth_quote {h : FlowHeaders} (hh : flowHeaders p n 0 = some h)
    (hq : flowParseDepth quoted p n 0 = some q) (ht : q.transport) (hm : m ≤ n) (hoff : h.off + 4 ≤ m)
    (hecho : isFlowEcho h.proto (p h.off) → h.off + 8 ≤ m) (hp : AgreeBelow m p p') :
    if (h.fragmented → 8 ∣ n - m) ∧ ¬quotesPacket h.proto (p h.off) then
      ∃ r, flowParseDepth (fun _ _ => none) p' m 1 = some r ∧ r.transport ∧ (r.fragmented → r.first) ∧
        r.flowHash = q.flowHash
    else ∀ r, flowParseDepth (fun _ _ => none) p' m 1 = some r → r.transport = false := by
  obtain ⟨hfirst, -, hkey⟩ := transport_cases hh hq ht
  have hquote := flowHeaders_quote hh hm (by omega) hfirst hp
  split
  next hcond =>
    obtain ⟨halign, hnq⟩ := hcond
    rw [if_neg (fun hc => hc.2 (halign hc.1))] at hquote
    unfold flowParseDepth
    simp only [hquote]
    rw [if_neg (by simp [hfirst])]
    obtain ⟨hports, hhash⟩ | ⟨hmsg, hhash⟩ | hquotes := hkey
    · rw [if_pos hports, if_neg (by omega)]
      refine ⟨_, rfl, rfl, fun _ => hfirst, ?_⟩
      rw [hhash, hp.read (by omega), hp.read (by omega)]
      rfl
    · rw [if_neg (by simp [hasPorts_of_echo hmsg]), if_pos ⟨icmp_of_echo hmsg, hecho hmsg⟩, hp h.off (by omega),
        if_neg (by simp), Option.filter_none]
      dsimp only
      rw [if_pos hmsg]
      refine ⟨_, rfl, rfl, fun _ => hfirst, ?_⟩
      have h8 := hecho hmsg
      rw [hhash, hp.read (by omega)]
      rfl
    · exact absurd hquotes hnq
  next hcond =>
    intro r hr
    by_cases halign : h.fragmented → 8 ∣ n - m
    · have hquotes : quotesPacket h.proto (p h.off) := by
        by_contra hnq
        exact hcond ⟨halign, hnq⟩
      rw [if_neg (fun hc => hc.2 (halign hc.1))] at hquote
      unfold flowParseDepth at hr
      simp only [hquote] at hr
      obtain ⟨-, hports, hnecho⟩ := quotesPacket_cases hquotes
      rw [if_neg (by simp [hfirst]), if_neg (by simp [hports]), hp h.off (by omega)] at hr
      simp only [Nat.one_ne_zero, false_and, if_false, Option.filter_none, hnecho, Bool.false_eq_true] at hr
      split at hr <;> obtain rfl := Option.some.inj hr <;> rfl
    · rw [if_pos (by simpa using halign)] at hquote
      unfold flowParseDepth at hr
      simp only [hquote] at hr
      cases hr

end

/-! ### Errors -/

/-- `ErrorChain p seen proto off k proto' off'`: from the header of protocol `proto` at `off` there are `k` extension
headers up to the header of protocol `proto'` at `off'`.  A fragment header may be among them once, of a packet that is
no fragment. -/
inductive ErrorChain (p : Mem) : Bool → Byte → Nat → Nat → Byte → Nat → Prop where
  | here {seen proto off} : ErrorChain p seen proto off 0 proto off
  | options {seen proto off k proto' off'} (hproto : proto ∈ [0, 43, 60])
      (h : ErrorChain p seen (p off) (off + ((p (off + 1)).toNat + 1) * 8) k proto' off') :
      ErrorChain p seen proto off (k + 1) proto' off'
  | auth {seen off k proto' off'}
      (h : ErrorChain p seen (p off) (off + ((p (off + 1)).toNat + 2) * 4) k proto' off') :
      ErrorChain p seen 51 off (k + 1) proto' off'
  | atomic {off k proto' off'} (hreserved : p (off + 1) = 0) (hfrag : flowBe16 p (off + 2) = 0)
      (h : ErrorChain p true (p off) (off + 8) k proto' off') : ErrorChain p false 44 off (k + 1) proto' off'

/-- `IcmpError e ne k off`: an ICMPv4 or ICMPv6 error of `ne` bytes, with its ICMP header at `off` behind `k` extension
headers. -/
inductive IcmpError (e : Mem) (ne : Nat) : Nat → Nat → Prop where
  | ip4 (hversion : e 0 >>> 4 = 4) (hihl : 5 ≤ (e 0 &&& 15).toNat) (htotal : (flowBe16 e 2).toNat = ne)
      (hwhole : flowBe16 e 6 &&& 0xbfff = 0) (hproto : e 9 = 1)
      (htype : e ((e 0 &&& 15).toNat * 4) ∈ [3, 11, 12]) : IcmpError e ne 0 ((e 0 &&& 15).toNat * 4)
  | ip6 {k off} (hversion : e 0 >>> 4 = 6) (htotal : 40 + (flowBe16 e 4).toNat = ne)
      (hchain : ErrorChain e false (e 6) 40 k 58 off) (htype : (e off).ult 128) : IcmpError e ne k off

private theorem ErrorChain.off_le {seen : Bool} {proto proto' : Byte} {off off' k : Nat}
    (hc : ErrorChain p seen proto off k proto' off') : off ≤ off' := by
  induction hc with
  | here => exact Nat.le_refl _
  | options _ _ ih => omega
  | auth _ ih => omega
  | atomic _ _ _ ih => omega

/-- The walk behind one header, from what its step does. -/
private theorem flowExt_step {seen seen' : Bool} {h : FlowHeaders} {off off' k : Nat} {proto' : Byte}
    (hext : isFlowExt h.proto) (hfirst : h.first)
    (hstep : flowExtStep p seen h =
      if off ≤ 296 then some (seen', { h with off := off, proto := p h.off }) else none)
    (hle : off ≤ off')
    (ih : off ≤ 296 → ∀ count, flowExt p count seen' { h with off := off, proto := p h.off } =
      if k ≤ count ∧ off' ≤ 296 then some { h with off := off', proto := proto' } else none) (count : Nat) :
    flowExt p count seen h =
      if k + 1 ≤ count ∧ off' ≤ 296 then some { h with off := off', proto := proto' } else none := by
  unfold flowExt
  cases count with
  | zero =>
    dsimp only
    rw [if_pos hext, if_neg (by omega)]
  | succ count =>
    dsimp only
    rw [if_pos hext, hstep]
    by_cases hlimit : off ≤ 296
    · rw [if_pos hlimit]
      dsimp only
      rw [if_pos hfirst, ih hlimit]
      simp only [Nat.add_le_add_iff_right]
    · rw [if_neg hlimit, if_neg (by omega)]

/-- The step over an extension header other than a fragment header. -/
private theorem flowExtStep_skip {seen : Bool} {h : FlowHeaders} (h44 : h.proto ≠ 44) (hlimit : h.off ≤ 296) {len : Nat}
    (hl : len = if h.proto = 51 then ((p (h.off + 1)).toNat + 2) * 4 else ((p (h.off + 1)).toNat + 1) * 8)
    (hlen : h.off + len + 8 ≤ h.len) : flowExtStep p seen h =
      if h.off + len ≤ 296 then some (seen, { h with off := h.off + len, proto := p h.off }) else none := by
  unfold flowExtStep
  rw [if_neg (by omega)]
  dsimp only
  rw [if_neg h44, ← hl]
  by_cases hend : h.off + len ≤ 296
  · rw [if_pos hend, if_neg (by omega)]
  · rw [if_neg hend, if_pos (by omega)]

/-- The step over the fragment header of a packet that is no fragment. -/
private theorem flowExtStep_atomic {h : FlowHeaders} (h44 : h.proto = 44) (hlimit : h.off ≤ 296) (hfirst : h.first)
    (hwhole : h.fragmented = false) (hreserved : p (h.off + 1) = 0) (hfrag : flowBe16 p (h.off + 2) = 0)
    (hlen : h.off + 8 + 8 ≤ h.len) : flowExtStep p false h =
      if h.off + 8 ≤ 296 then some (true, { h with off := h.off + 8, proto := p h.off }) else none := by
  unfold flowExtStep
  rw [if_neg (by omega)]
  dsimp only
  rw [if_pos h44, if_neg (by simp; omega), hfrag, hreserved, if_neg (by decide), if_neg (by simp)]
  by_cases hend : h.off + 8 ≤ 296
  · rw [if_pos hend, if_neg (by omega)]
    cases h
    simp_all
  · rw [if_neg hend, if_pos (by omega)]

/-- **The walk over the extension headers of an error** comes to the end if there are no more of them than it takes and
they end before its limit. -/
theorem ErrorChain.walk {seen : Bool} {proto proto' : Byte} {off off' k : Nat}
    (hc : ErrorChain p seen proto off k proto' off') (hstop : isFlowExt proto' = false) {h : FlowHeaders}
    (hproto : h.proto = proto) (hoff : h.off = off) (hfirst : h.first) (hwhole : h.fragmented = false)
    (hlimit : off ≤ 296) (hlen : off' + 8 ≤ h.len) (count : Nat) :
    flowExt p count seen h =
      if k ≤ count ∧ off' ≤ 296 then some { h with off := off', proto := proto' } else none := by
  induction hc generalizing h count with
  | here =>
    subst hproto hoff
    rw [if_pos ⟨Nat.zero_le _, hlimit⟩]
    unfold flowExt
    cases count <;> simp [hstop]
  | options hin hc ih =>
    subst hproto hoff
    have hle := hc.off_le
    have hext : isFlowExt h.proto ∧ h.proto ≠ 44 ∧ h.proto ≠ 51 := by
      simp only [List.mem_cons, List.not_mem_nil, or_false] at hin
      rcases hin with hin | hin | hin <;> rw [hin] <;> decide
    refine flowExt_step hext.1 hfirst (flowExtStep_skip hext.2.1 hlimit (if_neg hext.2.2).symm (by omega)) hle ?_ count
    intro hnext count
    exact ih hstop (h := { h with off := h.off + ((p (h.off + 1)).toNat + 1) * 8, proto := p h.off }) rfl rfl hfirst
      hwhole hnext hlen count
  | auth hc ih =>
    subst hoff
    have hle := hc.off_le
    have hext : isFlowExt h.proto := by rw [hproto]; rfl
    have h44 : h.proto ≠ 44 := by rw [hproto]; decide
    refine flowExt_step hext hfirst (flowExtStep_skip h44 hlimit (if_pos hproto).symm (by omega)) hle ?_ count
    intro hnext count
    exact ih hstop (h := { h with off := h.off + ((p (h.off + 1)).toNat + 2) * 4, proto := p h.off }) rfl rfl hfirst
      hwhole hnext hlen count
  | atomic hreserved hfrag hc ih =>
    subst hoff
    have hle := hc.off_le
    have hext : isFlowExt h.proto := by rw [hproto]; rfl
    refine flowExt_step hext hfirst (flowExtStep_atomic hproto hlimit hfirst hwhole hreserved hfrag (by omega)) hle ?_
      count
    intro hnext count
    exact ih hstop (h := { h with off := h.off + 8, proto := p h.off }) rfl rfl hfirst hwhole
      hnext hlen count

/-- The headers of an error are accepted within the limits of the walk. -/
theorem IcmpError.headers {e : Mem} {ne k off : Nat} (he : IcmpError e ne k off) (hlen : off + 8 ≤ ne) :
    (k ≤ 8 ∧ off ≤ 296 → ∃ g, flowHeaders e ne 0 = some g ∧ g.off = off ∧ g.len = ne ∧ g.first ∧
      quotesPacket g.proto (e off)) ∧ (¬(k ≤ 8 ∧ off ≤ 296) → flowHeaders e ne 0 = none) := by
  cases he with
  | ip4 hversion hihl htotal hwhole hproto htype =>
    have hihl16 : (e 0 &&& 15).toNat ≤ 15 := by
      rw [BitVec.toNat_and]
      exact Nat.and_le_right
    have hmask : ∀ m : BitVec 16, m &&& 0xbfff = m → flowBe16 e 6 &&& m = 0 := by
      intro m hm
      rw [← hm, BitVec.and_comm m, ← BitVec.and_assoc, hwhole]
      exact BitVec.zero_and
    have hheaders : flowHeaders e ne 0 = some
        { family := 4
          len := ne
          off := (e 0 &&& 15).toNat * 4
          proto := e 9
          src := e.read 12 4 ++ List.replicate 12 0
          dst := e.read 16 4 ++ List.replicate 12 0
          fragmented := false
          first := true
          ident := e.read 4 2 ++ [0, 0]
          keyProto := e 9 } := by
      unfold flowHeaders flowHeaders4
      rw [if_neg (by omega), if_pos hversion]
      dsimp only
      rw [htotal, if_neg (by omega), if_neg (by omega), hmask 0x8000 (by decide), hmask 0x3fff (by decide),
        hmask 0x1fff (by decide), if_neg (by simp), Nat.min_self]
      simp
    refine ⟨fun _ => ⟨_, hheaders, rfl, rfl, rfl, ?_⟩, fun hlimit => absurd ⟨by omega, by omega⟩ hlimit⟩
    unfold quotesPacket
    simpa [hproto, or_assoc] using htype
  | ip6 hversion htotal hchain htype =>
    have h40 := hchain.off_le
    have h4 : e 0 >>> 4 ≠ 4 := by
      rw [hversion]
      decide
    have hpayload : flowBe16 e 4 ≠ 0 := by
      intro hzero
      rw [hzero] at htotal
      simp at htotal
      omega
    have hheaders : flowHeaders e ne 0 = flowExt e 8 false
        { family := 6
          len := ne
          off := 40
          proto := e 6
          src := e.read 8 16
          dst := e.read 24 16
          fragmented := false
          first := true
          ident := [0, 0, 0, 0]
          keyProto := 0 } := by
      unfold flowHeaders flowHeaders6
      rw [if_neg (by omega), if_neg h4, if_pos hversion]
      dsimp only
      rw [htotal, if_neg (by omega), if_neg (fun hc => hc.elim hpayload fun h => h.2 rfl),
        Nat.min_self]
    have hwalk := hheaders.trans (hchain.walk rfl rfl rfl rfl rfl (by omega) hlen 8)
    refine ⟨fun hlimit => ?_, fun hlimit => ?_⟩
    · rw [if_pos hlimit] at hwalk
      refine ⟨_, hwalk, rfl, rfl, rfl, ?_⟩
      unfold quotesPacket
      rw [htype]
      rfl
    · rw [if_neg hlimit] at hwalk
      exact hwalk

/-- An ICMP error of `ne` bytes quotes the first `m` bytes of `p` behind its ICMP header, which is at `off` behind `k`
extension headers. -/
structure QuotesPrefix (e : Mem) (ne k off : Nat) (p : Mem) (m : Nat) : Prop where
  error : IcmpError e ne k off
  length : ne = off + 8 + m
  quote : AgreeBelow m p (e.shift (off + 8))

/-- The classifier takes the error for a packet of the flow of hash `hash`. -/
def Follows (e : Mem) (ne : Nat) (hash : BitVec 32) : Prop :=
  ∃ r, flowParse e ne = some r ∧ r.transport ∧ r.flowHash = hash

/-- What the classifier makes of an error, from what it makes of the quote. -/
private theorem flowParse_error {e : Mem} {ne off m : Nat} {g : FlowHeaders} (hg : flowHeaders e ne 0 = some g)
    (goff : g.off = off) (glen : g.len = ne) (gfirst : g.first) (hquotes : quotesPacket g.proto (e off))
    (hne : ne = off + 8 + m) : flowParse e ne =
      match (flowParseDepth (fun _ _ => none) (e.shift (off + 8)) m 1).filter
          fun q => q.transport && (!q.fragmented || q.first) with
      | some r => some { g.packet with flowHash := r.flowHash, transport := true }
      | none => some { g.packet with flowHash := flowKeyHash g [0, 0] [0, 0] } := by
  obtain ⟨hicmp, hports, hnecho⟩ := quotesPacket_cases hquotes
  have hrest : ne - off - 8 = m := by omega
  unfold flowParse
  rw [flowParseDepth]
  simp only [hg, goff, glen, hrest]
  rw [if_neg (by simp [gfirst]), if_neg (by simp [hports]), if_pos ⟨hicmp, by omega⟩, if_pos ⟨trivial, hquotes⟩]
  cases (flowParseDepth (fun _ _ => none) (e.shift (off + 8)) m 1).filter
      fun q => q.transport && (!q.fragmented || q.first) with
  | none => simp only [hnecho, Bool.false_eq_true, if_false]
  | some q => rfl

/-- **ICMP errors follow their flow** if the error has at most eight extension headers, which end within 296 bytes, the
packet is no ICMP error itself, and the quote of a first fragment is short of it by a multiple of eight bytes; and only
then. -/
theorem follows_iff {q : FlowPacket} (hq : flowParse p n = some q) (ht : q.transport) {h : FlowHeaders}
    (hh : flowHeaders p n 0 = some h) (hm : m ≤ n) (hoff : h.off + 4 ≤ m)
    (hecho : isFlowEcho h.proto (p h.off) → h.off + 8 ≤ m) {e : Mem} {ne k off : Nat}
    (he : QuotesPrefix e ne k off p m) :
    Follows e ne q.flowHash ↔
      (k ≤ 8 ∧ off ≤ 296) ∧ (q.fragmented → 8 ∣ n - m) ∧ ¬quotesPacket h.proto (p h.off) := by
  have hquote := flowParseDepth_quote hh hq ht hm hoff hecho he.quote
  rw [(transport_cases hh hq ht).2.1]
  obtain ⟨haccepted, hrefused⟩ := he.error.headers (by have := he.length; omega)
  by_cases hlimit : k ≤ 8 ∧ off ≤ 296
  · obtain ⟨g, hg, goff, glen, gfirst, hquotes⟩ := haccepted hlimit
    have hparse := flowParse_error hg goff glen gfirst hquotes he.length
    unfold Follows
    rw [hparse]
    split at hquote
    next hcond =>
      obtain ⟨r, hr, hrt, hrf, hhash⟩ := hquote
      have hkept : (some r).filter (fun q : FlowPacket => q.transport && (!q.fragmented || q.first)) = some r := by
        rw [Option.filter_some, if_pos]
        cases hf : r.fragmented with
        | false => simp [hrt]
        | true => simp [hrt, hrf hf]
      rw [hr, hkept]
      exact iff_of_true ⟨_, rfl, rfl, hhash⟩ ⟨hlimit, hcond⟩
    next hcond =>
      have hnone : (flowParseDepth (fun _ _ => none) (e.shift (off + 8)) m 1).filter
          (fun q => q.transport && (!q.fragmented || q.first)) = none := by
        rw [Option.filter_eq_none_iff]
        intro r hr
        simp [hquote r hr]
      rw [hnone]
      refine iff_of_false ?_ fun hc => hcond hc.2
      rintro ⟨r, hr, hrt, -⟩
      obtain rfl := Option.some.inj hr
      cases hrt
  · have hnone : flowParse e ne = none := by
      unfold flowParse flowParseDepth
      rw [hrefused hlimit]
    refine iff_of_false ?_ fun hc => hlimit hc.1
    rintro ⟨r, hr, -⟩
    rw [hnone] at hr
    cases hr

/-- An ICMPv4 error about the first fragment of a query: time exceeded, with the first `m` bytes of the fragment. -/
def queryError (m : Nat) : List Byte :=
  [0x45, 0, 0, BitVec.ofNat 8 (28 + m), 0, 1, 0, 0, 64, 1, 0, 0, 10, 0, 0, 9, 10, 0, 0, 1, 11, 0, 0, 0, 0, 0, 0, 0] ++
    queryFragment.take m

private theorem queryError_quotes {m : Nat} (hm : m = 24 ∨ m = 28) :
    QuotesPrefix (Mem.ofList (queryError m)) (28 + m) 0 20 (Mem.ofList queryFragment) m := by
  have hagree : ∀ i < m, (Mem.ofList (queryError m)).shift 28 i = Mem.ofList queryFragment i := by
    rcases hm with rfl | rfl <;> decide
  refine ⟨?_, by omega, hagree⟩
  rcases hm with rfl | rfl
  · exact .ip4 (by decide) (by decide) (by decide) (by decide) (by decide) (by decide)
  · exact .ip4 (by decide) (by decide) (by decide) (by decide) (by decide) (by decide)

theorem follows_iff_query : ∃ q, flowParse (Mem.ofList queryFragment) 28 = some q ∧
    Follows (Mem.ofList (queryError 28)) 56 q.flowHash := by
  obtain ⟨q, hq⟩ := Option.isSome_iff_exists.1 (by decide : (flowParse (Mem.ofList queryFragment) 28).isSome)
  obtain ⟨h, hh⟩ := Option.isSome_iff_exists.1 (by decide : (flowHeaders (Mem.ofList queryFragment) 28 0).isSome)
  have ht : ∀ q ∈ flowParse (Mem.ofList queryFragment) 28, q.transport = true := by decide
  have hhead : ∀ h ∈ flowHeaders (Mem.ofList queryFragment) 28 0, h.off = 20 ∧ h.proto = 17 := by decide
  obtain ⟨hoff, hproto⟩ := hhead h hh
  refine ⟨q, hq, ?_⟩
  refine (follows_iff hq (ht q hq) hh (Nat.le_refl 28) (by omega) ?_ (queryError_quotes (.inr rfl))).2
    ⟨by decide, ?_, ?_⟩
  · intro hecho
    omega
  · intro _
    exact ⟨0, rfl⟩
  · rw [hproto, hoff]
    decide

/-- A quote of four bytes of the payload of the first fragment: the alignment of a whole fragment is asked of it, and
the error goes by its own addresses. -/
theorem not_follows_cut : ∃ q r, flowParse (Mem.ofList queryFragment) 28 = some q ∧ q.transport ∧ q.first ∧
    QuotesPrefix (Mem.ofList (queryError 24)) 52 0 20 (Mem.ofList queryFragment) 24 ∧
    flowParse (Mem.ofList (queryError 24)) 52 = some r ∧ r.flowHash ≠ q.flowHash := by
  obtain ⟨q, hq⟩ := Option.isSome_iff_exists.1 (by decide : (flowParse (Mem.ofList queryFragment) 28).isSome)
  obtain ⟨r, hr⟩ := Option.isSome_iff_exists.1 (by decide : (flowParse (Mem.ofList (queryError 24)) 52).isSome)
  have hfirst : ∀ q ∈ flowParse (Mem.ofList queryFragment) 28, q.transport ∧ q.first := by decide
  have hne : ∀ q ∈ flowParse (Mem.ofList queryFragment) 28, ∀ r ∈ flowParse (Mem.ofList (queryError 24)) 52,
      r.flowHash ≠ q.flowHash := by decide +kernel
  exact ⟨q, r, hq, (hfirst q hq).1, (hfirst q hq).2, queryError_quotes (.inl rfl), hr, hne q hq r hr⟩

end Tayga
