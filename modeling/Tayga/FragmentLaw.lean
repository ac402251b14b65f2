import Tayga.DataRuns
import Tayga.Lib.Cut

/-!
# Fragments to IPv6

`xlate_4to6_data` sends a packet that is a fragment, or that may be fragmented and does not fit, in IPv6 fragments.  The
loop writes one packet for every piece of the translated payload (`fragmentLoop_runs`), so the fragments are the payload
cut at multiples of eight bytes, no longer than the limit (`fragments_exact`).
-/

namespace Tayga

open Program

variable {g : Gcfg} {p : Pkt4} {t : List (Sigma PktOp.Ans)}

/-! ### Fragments -/

/-- The offset in the fragment header of a packet. -/
def fragOffset (packet : List Byte) : Nat := (getBe16 packet 42 &&& ip6FMask).toNat

/-- The M flag of a fragment. -/
def MoreFragments (packet : List Byte) : Prop := getBe16 packet 42 &&& ip6FMf ≠ 0

/-- What a fragment carries. -/
def fragData (packet : List Byte) : List Byte := packet.drop 48

/-- The offset of an IPv4 packet, in bytes. -/
def Pkt4.offset (p : Pkt4) : Nat := (p.ip4.flagsOffset &&& ip4FMask).toNat * 8

/-- The packets are the fragments of `data`, itself the part of the packet `p` behind its headers, from `src` to
`dest`. -/
structure Fragments (g : Gcfg) (p : Pkt4) (src dest : In6) (data : List Byte) (packets : List (List Byte)) : Prop where
  hsize : ∀ packet ∈ packets, packet.length ≤ limit6 g
  hheader : ∀ packet ∈ packets, packet.length < 40 + 65536 ∧
    Ip6.ofBytes packet = ⟨verTc p.ip4.tos, BitVec.ofNat 16 (packet.length - 40), 44, p.ip4.ttl - 1, src, dest⟩
  hfragment : ∀ packet ∈ packets,
    getU8 packet 40 = (if p.dataProto = 1 then 58 else p.dataProto) ∧ getBe32 packet 44 = p.ip4.ident.setWidth 32
  hdata : packets.flatMap fragData = data
  hsome : ∀ packet ∈ packets, fragData packet ≠ []
  hend : p.offset + data.length ≤ 65535
  hfirst : ∀ hi : 0 < packets.length, fragOffset packets[0] = p.offset
  hnext : ∀ i, ∀ hi : i + 1 < packets.length,
    fragOffset packets[i + 1] = fragOffset packets[i] + (fragData packets[i]).length
  hfull : ∀ i, ∀ hi : i + 1 < packets.length, 8 ∣ (fragData packets[i]).length ∧ MoreFragments packets[i]
  hlast : ∀ i, ∀ hi : i < packets.length, i + 1 = packets.length →
    (MoreFragments packets[i] ↔ p.ip4.flagsOffset &&& ip4FMf ≠ 0)

/-- The fragment the loop writes for a piece of the payload. -/
def fragmentOf (ip6 : Ip6) (frag : Ip6Frag) (mf : Bool) (off : BitVec 16) (s : Cut.Piece Byte) : List Byte :=
  let off := off + BitVec.ofNat 16 s.offset
  { ip6 with payloadLength := BitVec.ofNat 16 (8 + s.data.length) }.toBytes ++
    ({ frag with offsetFlags := if s.last = false ∨ mf then off ||| ip6FMf else off }.toBytes ++ s.data)

section Packet

variable {ip6 : Ip6} {frag : Ip6Frag} {mf : Bool} {off : BitVec 16} {s : Cut.Piece Byte}

theorem fragData_fragmentOf : fragData (fragmentOf ip6 frag mf off s) = s.data := rfl

private theorem length_fragmentOf : (fragmentOf ip6 frag mf off s).length = 48 + s.data.length := by
  unfold fragmentOf
  dsimp only
  rw [List.length_append, List.length_append, ← Nat.add_assoc]
  rfl

/-- The headers of a fragment. -/
private theorem headers_fragmentOf (ip6 : Ip6) (frag : Ip6Frag) (mf : Bool) (off : BitVec 16) (s : Cut.Piece Byte) :
    Ip6.ofBytes (fragmentOf ip6 frag mf off s) =
      { ip6 with payloadLength := BitVec.ofNat 16 ((fragmentOf ip6 frag mf off s).length - 40) } ∧
    getU8 (fragmentOf ip6 frag mf off s) 40 = frag.nextHeader ∧
    getBe32 (fragmentOf ip6 frag mf off s) 44 = frag.ident := by
  have hlen : 8 + s.data.length = (fragmentOf ip6 frag mf off s).length - 40 := by
    rw [length_fragmentOf]
    omega
  refine ⟨?_, rfl, ofBytes4_byte4 frag.ident⟩
  rw [← hlen]
  exact Ip6.ofBytes_toBytes _ _

end Packet

/-- The bits of an offset that is a multiple of eight, with the M flag and without it. -/
theorem offset_flags (off : BitVec 16) (h : 8 ∣ off.toNat) :
    off &&& ip6FMask = off ∧ off &&& ip6FMf = 0 ∧ (off ||| ip6FMf) &&& ip6FMask = off ∧
      (off ||| ip6FMf) &&& ip6FMf ≠ 0 := by
  have hlow : off &&& 7 = 0 := by
    apply BitVec.eq_of_toNat_eq
    have hmod : off.toNat &&& 7 = off.toNat % 8 := Nat.and_two_pow_sub_one_eq_mod off.toNat 3
    rw [BitVec.toNat_and]
    exact hmod.trans (Nat.mod_eq_zero_of_dvd h)
  have hmask : off &&& ip6FMask = off := by
    have hall : ip6FMask ||| 7 = BitVec.allOnes 16 := by decide
    have hself : off &&& (ip6FMask ||| 7) = off := by rw [hall, BitVec.and_allOnes]
    rw [BitVec.and_or_distrib_left, hlow] at hself
    simpa using hself
  have hflag : off &&& ip6FMf = 0 := by
    have hseven : (7 : BitVec 16) &&& ip6FMf = ip6FMf := by decide
    rw [← hseven, ← BitVec.and_assoc, hlow]
    exact BitVec.zero_and
  refine ⟨hmask, hflag, ?_, ?_⟩
  · rw [BitVec.and_comm, BitVec.and_or_distrib_left, BitVec.and_comm, hmask, show ip6FMask &&& ip6FMf = 0 by decide]
    exact BitVec.or_zero
  · rw [BitVec.and_comm, BitVec.and_or_distrib_left, BitVec.and_comm, hflag]
    decide

/-- The offset and the M flag of a fragment whose offset is a multiple of eight and does not wrap. -/
private theorem offset_fragmentOf (ip6 : Ip6) (frag : Ip6Frag) (mf : Bool) (off : BitVec 16) (s : Cut.Piece Byte)
    (h8 : 8 ∣ off.toNat + s.offset) (hend : off.toNat + s.offset ≤ 65535) :
    fragOffset (fragmentOf ip6 frag mf off s) = off.toNat + s.offset ∧
    (MoreFragments (fragmentOf ip6 frag mf off s) ↔ s.last = false ∨ mf = true) := by
  have hfield : getBe16 (fragmentOf ip6 frag mf off s) 42 =
      if s.last = false ∨ mf then (off + BitVec.ofNat 16 s.offset) ||| ip6FMf else off + BitVec.ofNat 16 s.offset :=
    append_be16 _
  have hsum : (off + BitVec.ofNat 16 s.offset).toNat = off.toNat + s.offset := by
    rw [BitVec.toNat_add, BitVec.toNat_ofNat]
    omega
  obtain ⟨hmask, hflag, hmask', hflag'⟩ := offset_flags (off + BitVec.ofNat 16 s.offset) (by rwa [hsum])
  unfold fragOffset MoreFragments
  rw [hfield]
  by_cases hmore : s.last = false ∨ mf = true
  · rw [if_pos hmore, hmask', hsum]
    exact ⟨rfl, iff_of_true hflag' hmore⟩
  · rw [if_neg hmore, hmask, hsum]
    exact ⟨rfl, iff_of_false (not_not.2 hflag) hmore⟩

/-! ### The loop -/

/-- The packets the loop writes. -/
def fragmentsOf (ip6 : Ip6) (frag : Ip6Frag) (mf : Bool) (off : BitVec 16) (size offset : Nat) (data : List Byte) :
    List (List Byte) :=
  if data = [] then [] else (Cut.cut size offset data).map (fragmentOf ip6 frag mf off)

section Loop

variable {ip6 : Ip6} {frag : Ip6Frag} {mf : Bool} {off : BitVec 16} {size n offset : Nat} {data : List Byte}

private theorem fragmentLoop_nil : fragmentLoop ip6 frag mf n off size [] = .done () := by
  cases n with
  | zero => rfl
  | succ n =>
    unfold fragmentLoop
    rw [if_pos rfl]

/-- The last turn of the loop. -/
private theorem fragmentLoop_last (hnil : data ≠ []) (hle : data.length ≤ size) :
    fragmentLoop ip6 frag mf (n + 1) (off + BitVec.ofNat 16 offset) size data =
      .call (.write none (fragmentOf ip6 frag mf off ⟨offset, data, true⟩)) fun _ => .done () := by
  have hsize : (if data.length < size then data.length else size) = data.length := by
    split <;> omega
  have hflag : ([] : List Byte) ≠ [] ∨ mf = true ↔ true = false ∨ mf = true := by simp
  conv_lhs => unfold fragmentLoop
  dsimp only
  rw [if_neg hnil, hsize, List.drop_length, List.take_length, List.append_assoc, if_congr hflag rfl rfl]
  simp only [fragmentLoop_nil, ite_self]
  rfl

/-- A turn of the loop that leaves something. -/
private theorem fragmentLoop_more (hlt : size < data.length) :
    fragmentLoop ip6 frag mf (n + 1) (off + BitVec.ofNat 16 offset) size data =
      .call (.write none (fragmentOf ip6 frag mf off ⟨offset, data.take size, false⟩)) fun ret =>
        if ret < 0 then .done ()
        else fragmentLoop ip6 frag mf n (off + BitVec.ofNat 16 (offset + size)) size (data.drop size) := by
  have hnil : data ≠ [] := List.ne_nil_of_length_pos (by omega)
  have hrest : data.drop size ≠ [] := by
    rw [ne_eq, List.drop_eq_nil_iff]
    omega
  have hpart : (data.take size).length = size := List.length_take_of_le hlt.le
  conv_lhs => unfold fragmentLoop
  dsimp only
  rw [if_neg hnil, if_neg (show ¬data.length < size by omega), if_pos (.inl hrest), List.append_assoc,
    BitVec.add_assoc, ← BitVec.ofNat_add]
  unfold fragmentOf
  dsimp only
  rw [hpart, if_pos (.inl rfl)]

/-- **The loop of `xlate_4to6_data`** ends with all of the data sent, unless a write fails. -/
theorem fragmentLoop_runs {r : Unit} (hs : 0 < size) (hn : data.length ≤ n) (hsent : AllSent t)
    (hruns : (fragmentLoop ip6 frag mf n (off + BitVec.ofNat 16 offset) size data).Runs t r) :
    outputs t = fragmentsOf ip6 frag mf off size offset data := by
  unfold fragmentsOf
  by_cases hnil : data = []
  · rw [hnil, fragmentLoop_nil] at hruns
    obtain ⟨rfl, -⟩ := hruns
    rw [if_pos hnil]
    rfl
  rw [if_neg hnil]
  induction n generalizing offset data t with
  | zero => exact absurd (List.length_eq_zero_iff.1 (Nat.le_zero.1 hn)) hnil
  | succ n ih =>
    by_cases hle : data.length ≤ size
    · rw [fragmentLoop_last hnil hle] at hruns
      obtain ⟨ret, t', rfl, rfl, -⟩ := hruns
      rw [Cut.cut_of_le offset hle]
      rfl
    · have hlt : size < data.length := Nat.lt_of_not_le hle
      have hrest : data.drop size ≠ [] := by
        rw [ne_eq, List.drop_eq_nil_iff]
        omega
      rw [fragmentLoop_more hlt] at hruns
      obtain ⟨ret, t', rfl, hruns⟩ := hruns
      obtain ⟨hret, hsent⟩ := hsent.write
      dsimp only at hruns
      rw [if_neg (Int.not_lt.2 (Int.le_of_lt hret))] at hruns
      have hlen : (data.drop size).length ≤ n := by
        rw [List.length_drop]
        omega
      rw [outputs_write, ih hlen hsent hruns hrest, Cut.cut_of_lt hs offset hlt, List.map_cons]

/-- The fragment header of a packet, up to offset and M flag. -/
def fragHeader4to6 (p : Pkt4) (src dest : In6) : Ip6Frag :=
  ⟨(dataHeader4to6 p src dest).nextHeader, 0, 0, p.ip4.ident.setWidth 32⟩

/-- **The packets the loop writes are the fragments** of the data, if the data does not exceed the largest datagram. -/
theorem fragmentsOf_fragments (src dest : In6) (hs : 0 < size) (h8 : 8 ∣ size) (hlimit : 48 + size ≤ limit6 g)
    (hmf : mf = true ↔ p.ip4.flagsOffset &&& ip4FMf ≠ 0) (hend : p.offset + data.length ≤ 65535)
    (hlen : data.length ≤ 65515) :
    Fragments g p src dest data (fragmentsOf { dataHeader4to6 p src dest with nextHeader := 44 }
      (fragHeader4to6 p src dest) mf ((p.ip4.flagsOffset &&& ip4FMask) * 8) size 0 data) := by
  generalize hip6 : { dataHeader4to6 p src dest with nextHeader := 44 } = ip6
  generalize hfrag : fragHeader4to6 p src dest = frag
  have hoff : ((p.ip4.flagsOffset &&& ip4FMask) * 8).toNat = p.offset := by
    have hle : p.offset ≤ 65535 := by omega
    unfold Pkt4.offset at hle ⊢
    rw [BitVec.toNat_mul]
    exact Nat.mod_eq_of_lt (show (p.ip4.flagsOffset &&& ip4FMask).toNat * 8 < 2 ^ 16 by omega)
  have h8off : 8 ∣ p.offset := Nat.dvd_mul_left 8 _
  unfold fragmentsOf
  by_cases hnil : data = []
  · rw [if_pos hnil, hnil]
    rw [hnil] at hend
    exact ⟨fun _ h => absurd h List.not_mem_nil, fun _ h => absurd h List.not_mem_nil,
      fun _ h => absurd h List.not_mem_nil, rfl, fun _ h => absurd h List.not_mem_nil, hend,
      fun h => absurd h (Nat.lt_irrefl _), fun _ h => absurd h (Nat.not_lt_zero _),
      fun _ h => absurd h (Nat.not_lt_zero _), fun _ h => absurd h (Nat.not_lt_zero _)⟩
  rw [if_neg hnil]
  -- what fragment `i` is
  have hpiece : ∀ i (hi : i < (Cut.cut size 0 data).length),
      fragOffset (fragmentOf ip6 frag mf ((p.ip4.flagsOffset &&& ip4FMask) * 8) (Cut.cut size 0 data)[i]) =
        p.offset + i * size ∧
      (MoreFragments (fragmentOf ip6 frag mf ((p.ip4.flagsOffset &&& ip4FMask) * 8) (Cut.cut size 0 data)[i]) ↔
        i + 1 ≠ (Cut.cut size 0 data).length ∨ mf = true) := by
    intro i hi
    have hle := Cut.offset_add_length_le (List.getElem_mem hi)
    have hget := Cut.getElem_cut hs 0 data hi
    have hoffset : (Cut.cut size 0 data)[i].offset = i * size := by rw [hget, Nat.zero_add]
    have hlast : (Cut.cut size 0 data)[i].last = decide (i + 1 = (Cut.cut size 0 data).length) := by rw [hget]
    have h := offset_fragmentOf ip6 frag mf ((p.ip4.flagsOffset &&& ip4FMask) * 8) (Cut.cut size 0 data)[i]
    rw [hoff, hoffset, hlast, decide_eq_false_iff_not] at h
    rw [hoffset] at hle
    exact h (h8off.add (h8.mul_left i)) (by omega)
  refine ⟨fun packet hmem => ?_, fun packet hmem => ?_, fun packet hmem => ?_, ?_, fun packet hmem => ?_, hend,
    fun hi => ?_, fun i hi => ?_, fun i hi => ?_, fun i hi hlast => ?_⟩
  · obtain ⟨s, hs', rfl⟩ := List.mem_map.1 hmem
    have hle := Cut.length_data_le hs hs'
    rw [length_fragmentOf]
    omega
  · obtain ⟨s, hs', rfl⟩ := List.mem_map.1 hmem
    have hle := Cut.length_data_le_length hs'
    refine ⟨by rw [length_fragmentOf]; omega, ?_⟩
    rw [(headers_fragmentOf ip6 frag mf _ s).1, ← hip6]
    rfl
  · obtain ⟨s, -, rfl⟩ := List.mem_map.1 hmem
    rw [(headers_fragmentOf ip6 frag mf _ s).2.1, (headers_fragmentOf ip6 frag mf _ s).2.2, ← hfrag]
    exact ⟨rfl, rfl⟩
  · rw [List.flatMap_map]
    exact Cut.cut_flatten size 0 data
  · obtain ⟨s, hs', rfl⟩ := List.mem_map.1 hmem
    exact Cut.data_ne_nil hnil hs'
  · rw [List.length_map] at hi
    rw [List.getElem_map, (hpiece 0 hi).1, Nat.zero_mul, Nat.add_zero]
  · rw [List.length_map] at hi
    rw [List.getElem_map, List.getElem_map, (hpiece (i + 1) hi).1, (hpiece i (by omega)).1, fragData_fragmentOf,
      Cut.length_data hs 0 data hi, Nat.succ_mul, Nat.add_assoc]
  · rw [List.length_map] at hi
    rw [List.getElem_map, fragData_fragmentOf, Cut.length_data hs 0 data hi]
    exact ⟨h8, (hpiece i (by omega)).2.2 (.inl (by omega))⟩
  · rw [List.length_map] at hi hlast
    rw [List.getElem_map, (hpiece i hi).2, ← hmf]
    exact or_iff_right (not_not.2 hlast)

end Loop

/-! ### The packets of a run -/

theorem offset_eq_zero (h : p.ip4.flagsOffset &&& ip4FMask = 0) : p.offset = 0 := by
  rw [Pkt4.offset, h]
  rfl

/-- `parse_ip4` refuses a fragment that exceeds the largest datagram. -/
theorem parseIp4_offset {d : List Byte} {vhdr : Option VnetHdr} (h : parseIp4 d vhdr false = .ok p) :
    p.offset + p.data.length ≤ 65535 := by
  have hp := parsed4_of_parseIp4 h
  by_cases hicmp : p.dataProto = 1
  · have hwhole : p.isFragment = false := (hp.hicmp hicmp).2 rfl
    have hzero : p.ip4.flagsOffset &&& (ip4FMask ||| ip4FMf) = 0 := not_not.1 (of_decide_eq_false hwhole)
    have hlen := hp.hlen
    have hlt := p.ip4.length.isLt
    rw [offset_eq_zero (and_eq_zero_of_and_or hzero)]
    omega
  have hip4 := hp.hip4
  unfold parseIp4 at h
  dsimp only at h
  split at h
  · cases h
  split at h
  · cases h
  split at h
  · next hproto =>
    split at h
    · cases h
    split at h
    · cases h
    · obtain rfl := Except.ok.inj h
      exact absurd hproto hicmp
  split at h
  · cases h
  split at h
  · cases h
  split at h
  · cases h
  next hfit =>
  obtain rfl := Except.ok.inj h
  unfold Pkt4.offset
  rw [hip4]
  exact Nat.not_lt.1 hfit

/-- The payload that is sent is that of one datagram, and ends inside the largest one. -/
private theorem completeCsum_offset {d : List Byte} {vhdr : Option VnetHdr} {q : Pkt4} {ip6 : Ip6}
    (hparse : parseIp4 d vhdr false = .ok p) (hq : xlatePayload4to6 g p ip6 false = some q) :
    (completeCsum g q ip6).length ≤ 65515 ∧ p.offset + (completeCsum g q ip6).length ≤ 65535 := by
  have hp := parsed4_of_parseIp4 hparse
  have hoffset := parseIp4_offset hparse
  have hlen := length_payload4to6 hp hq
  have hle : (completeCsum g q ip6).length ≤ _ := length_completeCsum
  have htotal := hp.hlen
  have hmin := hp.hmin
  have hlt := p.ip4.length.isLt
  refine ⟨by omega, ?_⟩
  by_cases hzero : p.ip4.flagsOffset &&& ip4FMask = 0
  · rw [offset_eq_zero hzero]
    omega
  -- a later fragment has no checksum to complete
  obtain ⟨r, hr, rfl⟩ := Option.map_eq_some_iff.1 hq
  have hnon : (payloadCtx4to6 g p ip6).noninitial = true := decide_eq_true hzero
  have hfragmented : (payloadCtx4to6 g p ip6).fragmented = true :=
    decide_eq_true fun h => hzero (and_eq_zero_of_and_or h)
  unfold xlatePayload at hr
  by_cases hneeds : (payloadCtx4to6 g p ip6).fragmented = true ∧ needsCsum p.vhdr = true
  · rw [if_pos hneeds] at hr
    cases hr
  rw [if_neg hneeds, if_pos hnon] at hr
  obtain rfl := Option.some.inj hr
  unfold completeCsum
  rw [if_neg fun h => hneeds ⟨hfragmented, h⟩]
  exact hoffset

/-- The packet that is sent in fragments. -/
theorem xlate4to6Emit_fragments {src dest : In6} {n : Nat} {r : Unit} (hn : 16 ≤ n) (hsent : AllSent t)
    (hruns : (xlate4to6Emit g p src dest n false).Runs t r) :
    xlatePayload4to6 g p (dataHeader4to6 p src dest) false = none ∧ outputs t = [] ∨
    ∃ q, xlatePayload4to6 g p (dataHeader4to6 p src dest) false = some q ∧
      outputs t = fragmentsOf { dataHeader4to6 p src dest with nextHeader := 44 } (fragHeader4to6 p src dest)
        (p.ip4.flagsOffset &&& ip4FMf ≠ 0) ((p.ip4.flagsOffset &&& ip4FMask) * 8) ((n - 8) / 8 * 8) 0
        (completeCsum g q (dataHeader4to6 p src dest)) := by
  unfold xlate4to6Emit at hruns
  dsimp only at hruns
  rcases hq : xlatePayload4to6 g p (dataHeader4to6 p src dest) false with _ | q
  · rw [show xlatePayload4to6 g p { xlateHeader4to6 p src dest p.data.length with hopLimit := _ } false = none from hq]
      at hruns
    obtain ⟨_, _, rfl, rfl, -⟩ := hruns
    exact .inl ⟨rfl, rfl⟩
  rw [show xlatePayload4to6 g p { xlateHeader4to6 p src dest p.data.length with hopLimit := _ } false = some q from hq]
    at hruns
  dsimp only at hruns
  rw [if_neg Bool.false_ne_true] at hruns
  have hstart : (p.ip4.flagsOffset &&& ip4FMask) * 8 = (p.ip4.flagsOffset &&& ip4FMask) * 8 + BitVec.ofNat 16 0 := by
    rw [BitVec.add_zero]
  have hpos : 0 < (n - 8) / 8 * 8 := by omega
  rw [hstart] at hruns
  exact .inr ⟨q, rfl, fragmentLoop_runs hpos (Nat.le_refl _) hsent hruns⟩

/-- Nothing of version 6 is written where everything has version 4. -/
theorem version_absurd {packets : List (List Byte)} (hnone : ∀ packet ∈ packets, version packet = 4)
    (hout : ∃ packet ∈ packets, version packet = 6) : False := by
  obtain ⟨packet, hmem, hversion⟩ := hout
  have hversion' := hnone packet hmem
  rw [hversion] at hversion'
  exact absurd hversion' (by decide)

theorem limit6_ge (hmtu : mtuMin ≤ g.mtu) (hofflink : mtuMin ≤ g.ipv6OfflinkMtu) : 1280 ≤ limit6 g := by
  unfold limit6
  split
  · exact hmtu
  · exact hofflink

/-- **Fragmentation to IPv6.**  A packet on the fragment path whose addresses are mapped to `src` and `dest` is sent,
unless a write fails, in fragments of the translated payload between these: in order and without a gap from the offset
of the packet on, none beyond the largest datagram, none longer than the limit, all of them but the last in multiples of
eight bytes with the M flag, the last with the M flag of the packet, and all with its identification. -/
theorem fragments_exact {d : List Byte} {vhdr : Option VnetHdr} {q : Pkt4} {src dest : In6} {r : Unit}
    (hparse : parseIp4 d vhdr false = .ok p) (hmtu : mtuMin ≤ g.mtu) (hofflink : mtuMin ≤ g.ipv6OfflinkMtu)
    (hpath : FragmentPath g p)
    (hruns : (xlate4to6Data g p).Runs
      (⟨.mapIp4ToIp6 p.ip4.dest, .ok dest⟩ :: ⟨.mapIp4ToIp6 p.ip4.src, .ok src⟩ :: t) r)
    (hq : xlatePayload4to6 g p (dataHeader4to6 p src dest) false = some q) (hsent : AllSent t) :
    Fragments g p src dest (completeCsum g q (dataHeader4to6 p src dest)) (outputs t) := by
  have hlimit := limit6_ge hmtu hofflink
  rcases xlate4to6Data_mapped hruns with ⟨hnot, -⟩ | ⟨noFragHdr, hnoFrag, -, hemit⟩
  · exact absurd hpath hnot
  rw [hnoFrag.2 hpath] at hemit
  rcases xlate4to6Emit_fragments (by omega) hsent hemit with ⟨hnone, -⟩ | ⟨q', hq', houtputs⟩
  · cases hq.symm.trans hnone
  cases hq.symm.trans hq'
  obtain ⟨hlen, hend⟩ := completeCsum_offset hparse hq
  rw [houtputs]
  exact fragmentsOf_fragments src dest (by omega) (Nat.dvd_mul_left 8 _) (by omega) decide_eq_true_iff hend hlen

/-- A fragment with 1304 bytes at offset 8 and more to come. -/
def laterFragment : List Byte :=
  (Ip4.mk 0x45 0 1324 0xbeef 0x2001 64 17 0 0xc0000205 0xc6336407).toBytes ++ List.replicate 1304 0

/-- The same, parsed. -/
def laterPkt : Pkt4 := ⟨laterFragment.take 20, laterFragment.drop 20, 17, none⟩

/-- What becomes of it. -/
def laterRun : List (Sigma PktOp.Ans) :=
  ((xlate4to6Data sampleGcfg laterPkt).exec (fun op _ => (sampleAns op, ())) ()).1

theorem fragments_exact_later : ∃ t, laterRun =
      ⟨.mapIp4ToIp6 0xc6336407, .ok 0x64ff9b0000000000000000c6336407⟩ ::
        ⟨.mapIp4ToIp6 0xc0000205, .ok 0x64ff9b0000000000000000c0000205⟩ :: t ∧
    Fragments sampleGcfg laterPkt 0x64ff9b0000000000000000c0000205 0x64ff9b0000000000000000c6336407 laterPkt.data
      (outputs t) ∧ (outputs t).map fragOffset = [8, 1240] := by
  have hparse : parseIp4 laterFragment none false = .ok laterPkt := by decide +kernel
  have hruns : (xlate4to6Data sampleGcfg laterPkt).Runs laterRun _ := runs_exec _ _ _
  have hsent : AllSent laterRun := by decide +kernel
  have hoffsets : (outputs laterRun).map fragOffset = [8, 1240] := by decide +kernel
  obtain ⟨t, hrun⟩ : ∃ t, laterRun = ⟨.mapIp4ToIp6 0xc6336407, .ok 0x64ff9b0000000000000000c6336407⟩ ::
      ⟨.mapIp4ToIp6 0xc0000205, .ok 0x64ff9b0000000000000000c0000205⟩ :: t := ⟨_, rfl⟩
  rw [hrun] at hruns hsent hoffsets
  have hfragments := fragments_exact (q := laterPkt) hparse (by decide) (by decide) (.inl (by decide +kernel)) hruns
    (by decide +kernel) hsent.tail.tail
  exact ⟨t, hrun, hfragments, hoffsets⟩

end Tayga
