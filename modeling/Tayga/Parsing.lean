import Tayga.Packet

/-!
# What the IPv6 parser accepts

An IPv6 packet, said without the parser: behind the IPv6 header the hop-by-hop, routing and destination options headers
one after the other (`ExtHeaders`), then a fragment header or none (`Behind`), then the data.  Of the packets
`parse_ip6` has nothing against otherwise (`WellFormed6`) it accepts those whose last routing header has no segments
left (`parseIp6_of_wellFormed`), and it drops all others (`wellFormed_of_parseIp6`).
-/

namespace Tayga

/-! ### The parts of a packet -/

/-- A hop-by-hop, routing or destination options header: its protocol and its bytes. -/
abbrev ExtHdr := Byte × List Byte

/-- From the header of protocol `proto` on there are the headers `hs`, and then `rest`, which is of another protocol
`proto'`. -/
inductive ExtHeaders : Byte → List Byte → List ExtHdr → Byte → List Byte → Prop where
  | nil {proto rest} (hstop : ¬isExt proto) : ExtHeaders proto rest [] proto rest
  | cons {proto h d hs proto' rest} (hext : isExt proto) (hlen : h.length = hdrLen h)
      (hd : ExtHeaders (getU8 h 0) d hs proto' rest) : ExtHeaders proto (h ++ d) ((proto, h) :: hs) proto' rest

/-- Behind the extension headers there is a fragment header or none, and then the data.  A packet that is not quoted in
an error and not the last fragment has its data in blocks of eight bytes. -/
inductive Behind (em : Bool) : Byte → List Byte → Option Ip6Frag → Byte → List Byte → Prop where
  | whole {proto data} (hproto : proto ≠ 44) : Behind em proto data none proto data
  | frag {f data} (hlen : f.length = 8)
      (haligned : em = false → (Ip6Frag.ofBytes f).offsetFlags &&& ip6FMf ≠ 0 → data.length % 8 = 0)
      (hsize : ((Ip6Frag.ofBytes f).offsetFlags &&& ip6FMask).toNat + data.length ≤ 65535) :
      Behind em 44 (f ++ data) (some (Ip6Frag.ofBytes f)) (Ip6Frag.ofBytes f).nextHeader data

/-- The packet behind its IPv6 header, as long as the header says. -/
def ip6Data (d : List Byte) : List Byte := (d.drop 40).take (Ip6.ofBytes d).payloadLength.toNat

/-- A packet that `parse_ip6` has nothing against, routing headers aside. -/
structure WellFormed6 (em : Bool) (d : List Byte) (hs : List ExtHdr) (frag : Option Ip6Frag) (proto : Byte)
    (data : List Byte) : Prop where
  hlen : 40 ≤ d.length
  hversion : (Ip6.ofBytes d).verTcFl >>> 28 = 6
  hsrc : validateIp6Addr (Ip6.ofBytes d).src = none
  hdest : validateIp6Addr (Ip6.ofBytes d).dest = none
  hfew : hs.length ≤ 8
  hchain : ∃ proto' rest, ExtHeaders (Ip6.ofBytes d).nextHeader (ip6Data d) hs proto' rest ∧
    Behind em proto' rest frag proto data
  hicmp : proto = 58 → 8 ≤ data.length ∧ (em = false → ¬frag.any Ip6Frag.isFragment)
  hicmp4 : proto ≠ 1

/-- Segments Left of a routing header. -/
def ExtHdr.segmentsLeft (h : ExtHdr) : Byte := getU8 h.2 3

/-- Segments Left of the last routing header. -/
def lastSegLeft (hs : List ExtHdr) : Byte :=
  match (hs.filter (·.1 = 43)).getLast? with
  | some h => ExtHdr.segmentsLeft h
  | none => 0

/-! ### The loop -/

/-- `seg_left` after one more header. -/
def segAfter (segLeft : Byte) (h : ExtHdr) : Byte := if h.1 = 43 then h.segmentsLeft else segLeft

private theorem foldl_segAfter (hs : List ExtHdr) (s : Byte) :
    hs.foldl segAfter s = match (hs.filter (·.1 = 43)).getLast? with
      | some h => h.segmentsLeft
      | none => s := by
  induction hs generalizing s with
  | nil => rfl
  | cons h hs ih =>
    rw [List.foldl_cons, ih]
    by_cases hh : h.1 = 43
    · rw [List.filter_cons_of_pos (by simpa using hh), List.getLast?_cons]
      cases (hs.filter (·.1 = 43)).getLast? <;> simp [segAfter, hh]
    · rw [List.filter_cons_of_neg (by simpa using hh), segAfter, if_neg hh]

theorem and_eq_zero_of_and_or {x m f : BitVec 16} (h : x &&& (m ||| f) = 0) : x &&& m = 0 := by
  have hand : x &&& m = x &&& (m ||| f) &&& m := by
    ext i
    simp only [BitVec.getElem_and, BitVec.getElem_or]
    cases x[i] <;> cases m[i] <;> simp
  rw [hand, h]
  exact BitVec.zero_and

private theorem hdrLen_ge (h : List Byte) : 8 ≤ hdrLen h := by
  unfold hdrLen
  omega

theorem hdrLen_append {h d : List Byte} (hlen : h.length = hdrLen h) : hdrLen (h ++ d) = hdrLen h := by
  have := hdrLen_ge h
  unfold hdrLen
  rw [getU8_append_left (by omega)]

/-- A complete header at the front of some data. -/
private theorem exists_header {d : List Byte} (h : hdrLen d ≤ d.length) : ∃ f r, d = f ++ r ∧ f.length = hdrLen f := by
  have hsplit : d.take (hdrLen d) ++ d.drop (hdrLen d) = d := List.take_append_drop _ _
  have hlen : (d.take (hdrLen d)).length = hdrLen d := by
    rw [List.length_take]
    omega
  have hone : getU8 (d.take (hdrLen d)) 1 = getU8 d 1 := by
    have hge := hdrLen_ge d
    conv_rhs => rw [← hsplit]
    rw [getU8_append_left (by omega)]
  refine ⟨d.take (hdrLen d), d.drop (hdrLen d), hsplit.symm, hlen.trans ?_⟩
  unfold hdrLen
  rw [show getU8 (d.take (((getU8 d 1).toNat + 1) * 8)) 1 = getU8 d 1 from hone]

namespace ExtWalk

variable {n : Nat} {w w' : ExtWalk}

private theorem loop_stop (h : ¬isExt w.dataProto) : loop n w = .ok w := by
  unfold loop
  rw [if_neg h]

private theorem loop_zero (h : isExt w.dataProto) : loop 0 w = .error w.data.length := by
  unfold loop
  rw [if_pos h]

private theorem loop_succ (h : isExt w.dataProto) : loop (n + 1) w =
    if w.data.length < 2 ∨ w.data.length < hdrLen w.data then .error w.data.length else loop n w.next := by
  rw [loop, if_pos h]

/-- The header at the front of the data, and the walk behind it. -/
private theorem next_of_append {h d : List Byte} (hdata : w.data = h ++ d) (hlen : h.length = hdrLen h) :
    w.next = {
      header := w.header ++ h
      dataProto := getU8 h 0
      data := d
      segLeft := segAfter w.segLeft (w.dataProto, h)
      segPtr := if segAfter w.segLeft (w.dataProto, h) = 0 then w.segPtr + hdrLen h else w.segPtr } := by
  have hge := hdrLen_ge h
  have hseg : w.nextSegLeft = segAfter w.segLeft (w.dataProto, h) := by
    unfold nextSegLeft segAfter ExtHdr.segmentsLeft
    rw [hdata, getU8_append_left (by omega)]
  unfold next
  rw [hseg, hdata, hdrLen_append hlen, getU8_append_left (by omega), ← hlen, List.take_left, List.drop_left]

/-- **The loop goes over the extension headers**, eight at most. -/
theorem loop_of_extHeaders {proto : Byte} {d rest : List Byte} {hs : List ExtHdr} {proto' : Byte}
    (h : ExtHeaders proto d hs proto' rest) (hn : hs.length ≤ n) (hproto : w.dataProto = proto) (hdata : w.data = d)
    (hptr : 8 ∣ w.segPtr) : ∃ w', loop n w = .ok w' ∧ w'.dataProto = proto' ∧ w'.data = rest ∧
    w'.segLeft = hs.foldl segAfter w.segLeft ∧ w.header <+: w'.header ∧ w'.header ++ rest = w.header ++ d ∧
    8 ∣ w'.segPtr := by
  induction h generalizing n w with
  | nil hstop => exact ⟨w, loop_stop (hproto ▸ hstop), hproto, hdata, rfl, List.prefix_refl _, rfl, hptr⟩
  | @cons proto h d hs proto' rest hext hlen hd ih =>
    obtain ⟨n, rfl⟩ : ∃ m, n = m + 1 := ⟨n - 1, by simp only [List.length_cons] at hn; omega⟩
    have hnext := next_of_append hdata hlen
    have hge := hdrLen_ge h
    have hptr' : 8 ∣ w.next.segPtr := by
      rw [hnext]
      dsimp only
      split
      · exact (Nat.dvd_add_right hptr).2 (Nat.dvd_mul_left 8 _)
      · exact hptr
    obtain ⟨w', hw', hp', hd', hs', hpre', hh', hptr'⟩ :=
      ih (w := w.next) (Nat.le_of_succ_le_succ hn) (by rw [hnext]) (by rw [hnext]) hptr'
    have hroom : ¬(w.data.length < 2 ∨ w.data.length < hdrLen w.data) := by
      rw [hdata, hdrLen_append hlen, List.length_append]
      omega
    refine ⟨w', ?_, hp', hd', ?_, ?_, ?_, hptr'⟩
    · rw [loop_succ (hproto ▸ hext), if_neg hroom, hw']
    · rw [hs', hnext, List.foldl_cons, hproto]
    · rw [hnext] at hpre'
      exact (List.prefix_append _ _).trans hpre'
    · rw [hh', hnext, List.append_assoc]

/-- **What the loop goes over are extension headers.** -/
theorem extHeaders_of_loop (h : loop n w = .ok w') :
    ∃ hs, hs.length ≤ n ∧ ExtHeaders w.dataProto w.data hs w'.dataProto w'.data := by
  induction n generalizing w with
  | zero =>
    by_cases hext : isExt w.dataProto
    · rw [loop_zero hext] at h
      cases h
    · rw [loop_stop hext] at h
      cases h
      exact ⟨[], Nat.le_refl _, .nil hext⟩
  | succ n ih =>
    by_cases hext : isExt w.dataProto
    · rw [loop_succ hext] at h
      split at h
      · cases h
      next hroom =>
      obtain ⟨hs, hle, hchain⟩ := ih h
      obtain ⟨f, r, hdata, hlen⟩ := exists_header (d := w.data) (by omega)
      rw [next_of_append hdata hlen] at hchain
      refine ⟨(w.dataProto, f) :: hs, Nat.succ_le_succ hle, ?_⟩
      rw [hdata]
      exact .cons hext hlen hchain
    · rw [loop_stop hext] at h
      cases h
      exact ⟨[], Nat.zero_le _, .nil hext⟩

end ExtWalk

/-! ### The fragment header -/

theorem Ip6Frag.ofBytes_append {f data : List Byte} (h : f.length = 8) : ofBytes (f ++ data) = ofBytes f := by
  simp (disch := omega) only [ofBytes, getBe16, getBe32, getU8_append_left]

variable {em : Bool} {w : ExtWalk} {vhdr : Option VnetHdr} {frag : Option Ip6Frag} {proto : Byte} {data : List Byte}

private theorem parseFrag_of_behind (vhdr : Option VnetHdr) (h : Behind em w.dataProto w.data frag proto data) :
    ∃ p, parseFrag w vhdr em = .ok p ∧ w.header <+: p.header ∧ p.header ++ data = w.header ++ w.data ∧
    p.frag = frag ∧ p.dataProto = proto ∧ p.data = data ∧ p.vhdr = vhdr := by
  generalize hproto : w.dataProto = proto' at h
  generalize hdata : w.data = d at h
  cases h with
  | whole hne =>
    refine ⟨⟨w.header, none, w.data, w.dataProto, vhdr⟩, ?_, List.prefix_refl _, by rw [hdata], rfl, hproto, hdata, rfl⟩
    unfold parseFrag
    rw [if_neg (hproto ▸ hne)]
  | @frag f _ hlen haligned hsize =>
    have hfrag : Ip6Frag.ofBytes w.data = Ip6Frag.ofBytes f := by rw [hdata, Ip6Frag.ofBytes_append hlen]
    have htake : w.data.take 8 = f := by rw [hdata, ← hlen, List.take_left]
    have hdrop : w.data.drop 8 = data := by rw [hdata, ← hlen, List.drop_left]
    refine ⟨⟨w.header ++ f, some (Ip6Frag.ofBytes f), data, (Ip6Frag.ofBytes f).nextHeader, vhdr⟩, ?_,
      List.prefix_append _ _, List.append_assoc _ _ _, rfl, rfl, rfl, rfl⟩
    unfold parseFrag
    have hroom : ¬w.data.length < 8 := by
      rw [hdata, List.length_append]
      omega
    rw [if_pos hproto, if_neg hroom]
    dsimp only
    rw [hfrag, htake, hdrop, if_neg, if_neg (by omega)]
    rintro ⟨hem, hmf, hmod⟩
    exact hmod (haligned (by simpa using hem) hmf)

private theorem behind_of_parseFrag {p : Pkt6} (h : parseFrag w vhdr em = .ok p) :
    Behind em w.dataProto w.data p.frag p.dataProto p.data := by
  unfold parseFrag at h
  split at h
  · next hproto =>
    split at h
    · cases h
    next hroom =>
    dsimp only at h
    split at h
    · cases h
    next haligned =>
    split at h
    · cases h
    next hsize =>
    cases h
    dsimp only at haligned hsize ⊢
    have hlen : (w.data.take 8).length = 8 := by
      rw [List.length_take]
      omega
    have hfrag : Ip6Frag.ofBytes w.data = Ip6Frag.ofBytes (w.data.take 8) := by
      conv_lhs => rw [← List.take_append_drop 8 w.data]
      exact Ip6Frag.ofBytes_append hlen
    have haligned' : em = false → (Ip6Frag.ofBytes (w.data.take 8)).offsetFlags &&& ip6FMf ≠ 0 →
        (w.data.drop 8).length % 8 = 0 := by
      intro hem hmf
      by_contra hmod
      exact haligned ⟨by rw [hem]; rfl, by rwa [hfrag], hmod⟩
    have hbehind : Behind em 44 (w.data.take 8 ++ w.data.drop 8) _ _ (w.data.drop 8) :=
      .frag hlen haligned' (by rw [← hfrag]; omega)
    rw [List.take_append_drop, ← hfrag] at hbehind
    rwa [hproto]
  · next hproto =>
    cases h
    exact .whole hproto

/-! ### The parser -/

variable {d : List Byte} {hs : List ExtHdr}

theorem Ip6.ofBytes_append {f data : List Byte} (h : f.length = 40) : ofBytes (f ++ data) = ofBytes f := by
  simp (disch := omega) only [ofBytes, getIn6, getBe16, getBe32, getU8_append_left]

/-- The IPv6 header of a packet is that of its first 40 bytes. -/
theorem Ip6.ofBytes_of_prefix {header : List Byte} (hlen : 40 ≤ d.length) (h : d.take 40 <+: header) :
    ofBytes header = ofBytes d := by
  have htake : (d.take 40).length = 40 := by
    rw [List.length_take]
    omega
  obtain ⟨x, rfl⟩ := h
  conv_rhs => rw [← List.take_append_drop 40 d]
  rw [ofBytes_append htake, ofBytes_append htake]

/-- **What the parser makes of a well-formed packet**: it is accepted if the last routing header has no segments left,
and otherwise refused with a pointer that is four more than a multiple of eight. -/
theorem parseIp6_of_wellFormed (vhdr : Option VnetHdr) (h : WellFormed6 em d hs frag proto data) : ∃ p ptr, 8 ∣ ptr ∧
    p.ip6 = Ip6.ofBytes d ∧ p.header ++ p.data = d.take 40 ++ ip6Data d ∧
    p.headerLen + p.data.length = (ip6Data d).length ∧ p.frag = frag ∧ p.dataProto = proto ∧ p.data = data ∧
    p.vhdr = vhdr ∧ parseIp6 d vhdr em = if lastSegLeft hs = 0 then .ok p else .routing (ptr + 4) p := by
  obtain ⟨proto', rest, hchain, hbehind⟩ := h.hchain
  obtain ⟨w, hw, hwproto, hwdata, hwseg, hwprefix, hwheader, hwptr⟩ :=
    ExtWalk.loop_of_extHeaders (w := ⟨d.take 40, (Ip6.ofBytes d).nextHeader, ip6Data d, 0, 40⟩) hchain h.hfew rfl rfl
      (Nat.dvd_mul_left 8 5)
  obtain ⟨p, hp, hpprefix, hpheader, hpfrag, hpproto, hpdata, hpvhdr⟩ :=
    parseFrag_of_behind vhdr (by rwa [← hwproto, ← hwdata] at hbehind)
  have hprefix : d.take 40 <+: p.header := hwprefix.trans hpprefix
  have hheader : p.header ++ p.data = d.take 40 ++ ip6Data d := by rw [hpdata, hpheader, hwdata, hwheader]
  have hlen : p.headerLen + p.data.length = (ip6Data d).length := by
    have hle := hprefix.length_le
    have hsum := congrArg List.length hheader
    rw [List.length_append, List.length_append, List.length_take_of_le h.hlen] at hsum
    rw [List.length_take_of_le h.hlen] at hle
    unfold Pkt6.headerLen
    omega
  refine ⟨p, w.segPtr, hwptr, Ip6.ofBytes_of_prefix h.hlen hprefix, hheader, hlen, hpfrag, hpproto, hpdata, hpvhdr, ?_⟩
  have hstart : ¬(d.length < 40 ∨ (Ip6.ofBytes d).verTcFl >>> 28 ≠ 6 ∨ validateIp6Addr (Ip6.ofBytes d).src ≠ none ∨
      validateIp6Addr (Ip6.ofBytes d).dest ≠ none) := by
    rw [not_or, not_or, not_or]
    exact ⟨Nat.not_lt.2 h.hlen, not_not.2 h.hversion, not_not.2 h.hsrc, not_not.2 h.hdest⟩
  have hfragmented : ¬(p.dataProto = 58 ∧ !em ∧ p.frag.any Ip6Frag.isFragment) := by
    rintro ⟨h58, hem, hany⟩
    exact (h.hicmp (hpproto ▸ h58)).2 (by simpa using hem) (hpfrag ▸ hany)
  have hshort : ¬(p.dataProto = 58 ∧ p.data.length < 8) := by
    rintro ⟨h58, hlt⟩
    have := (h.hicmp (hpproto ▸ h58)).1
    rw [hpdata] at hlt
    omega
  have hlast : w.segLeft = lastSegLeft hs := by
    rw [hwseg, foldl_segAfter]
    rfl
  unfold parseIp6
  dsimp only
  rw [if_neg hstart, show (d.drop 40).take (Ip6.ofBytes d).payloadLength.toNat = ip6Data d from rfl, hw]
  dsimp only
  rw [hp]
  dsimp only
  rw [if_neg hfragmented, if_neg hshort, if_neg (hpproto ▸ h.hicmp4), hlast]
  by_cases hzero : lastSegLeft hs = 0
  · rw [if_pos hzero, if_neg (not_not.2 hzero)]
  · rw [if_neg hzero, if_pos hzero]

/-- **What the parser does not drop is well formed.** -/
theorem wellFormed_of_parseIp6 (h : ∀ n, parseIp6 d vhdr em ≠ .drop n) :
    ∃ hs frag proto data, WellFormed6 em d hs frag proto data := by
  unfold parseIp6 at h
  dsimp only at h
  split at h
  · exact absurd rfl (h _)
  next hstart =>
  obtain ⟨hlen, hversion, hsrc, hdest⟩ : 40 ≤ d.length ∧ (Ip6.ofBytes d).verTcFl >>> 28 = 6 ∧
      validateIp6Addr (Ip6.ofBytes d).src = none ∧ validateIp6Addr (Ip6.ofBytes d).dest = none := by
    rw [not_or, not_or, not_or, not_not, not_not, not_not] at hstart
    exact ⟨Nat.not_lt.1 hstart.1, hstart.2⟩
  split at h
  · exact absurd rfl (h _)
  next w hw =>
  split at h
  · exact absurd rfl (h _)
  next p hp =>
  split at h
  · exact absurd rfl (h _)
  next hfragmented =>
  split at h
  · exact absurd rfl (h _)
  next hshort =>
  split at h
  · exact absurd rfl (h _)
  next hicmp4 =>
  obtain ⟨hs, hfew, hchain⟩ := ExtWalk.extHeaders_of_loop hw
  refine ⟨hs, p.frag, p.dataProto, p.data, hlen, hversion, hsrc, hdest, hfew, ⟨_, _, hchain, behind_of_parseFrag hp⟩,
    fun h58 => ⟨?_, fun hem hany => ?_⟩, hicmp4⟩
  · by_contra hlt
    exact hshort ⟨h58, Nat.not_le.1 hlt⟩
  · exact hfragmented ⟨h58, by rw [hem]; rfl, hany⟩

/-- **What the parser accepts.** -/
theorem parseIp6_eq_ok {p : Pkt6} (h : parseIp6 d vhdr em = .ok p) :
    ∃ hs, WellFormed6 em d hs p.frag p.dataProto p.data ∧ lastSegLeft hs = 0 ∧
    p.ip6 = Ip6.ofBytes d ∧ p.headerLen + p.data.length = (ip6Data d).length ∧ p.vhdr = vhdr := by
  have hkept : ∀ n, parseIp6 d vhdr em ≠ .drop n := by
    intro n hn
    rw [h] at hn
    cases hn
  obtain ⟨hs, frag, proto, data, hwf⟩ := wellFormed_of_parseIp6 hkept
  obtain ⟨q, ptr, -, hip6, -, hlen, hfrag, hproto, hdata, hvhdr, hq⟩ := parseIp6_of_wellFormed vhdr hwf
  rw [h] at hq
  split at hq
  · next hzero =>
    cases hq
    exact ⟨hs, by rwa [hfrag, hproto, hdata], hzero, hip6, hlen, hvhdr⟩
  · cases hq

end Tayga
