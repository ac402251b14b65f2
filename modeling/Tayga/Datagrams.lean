import Tayga.Built
import Tayga.Lib.Reassembly
import Tayga.Translated

/-!
# Datagrams in fragments

The fragments of a TCP or UDP datagram, translated one by one and put together by the receiver (`reassemble6`,
`reassemble4`), are the datagram translated as a whole (`fragments_commute`): the later fragments are copied, and the
checksum in the first one is changed by what the addresses of the datagram make of it.
-/

namespace Tayga

open OnesComplement Program Reassembly

/-! ### Reassembly at the receiver -/

/-- What a receiver has of a datagram: its addresses, its protocol, and what is behind the headers. -/
structure Datagram (A : Type) where
  src : A
  dest : A
  proto : Byte
  data : List Byte
deriving Repr, DecidableEq

/-- An IPv4 packet as a piece, with what the pieces of one datagram have in common. -/
def piece4 (packet : List Byte) : (In4 × In4 × Byte × BitVec 16) × Piece Byte :=
  let h := Ip4.ofBytes packet
  ((h.src, h.dest, h.proto, h.ident),
    ⟨(h.flagsOffset &&& ip4FMask).toNat * 8, ip4Data packet, h.flagsOffset &&& ip4FMf ≠ 0⟩)

/-- The same for an IPv6 packet, which has a fragment header or none. -/
def piece6 (packet : List Byte) : (In6 × In6 × Byte × Option (BitVec 32)) × Piece Byte :=
  let h := Ip6.ofBytes packet
  if h.nextHeader = 44 then
    let frag := Ip6Frag.ofBytes (ip6Data packet)
    ((h.src, h.dest, frag.nextHeader, some frag.ident),
      ⟨(frag.offsetFlags &&& ip6FMask).toNat, (ip6Data packet).drop 8, frag.offsetFlags &&& ip6FMf ≠ 0⟩)
  else ((h.src, h.dest, h.nextHeader, none), ⟨0, ip6Data packet, false⟩)

/-- The packets put together, if they are one datagram.  With its header it has at most 65535 bytes. -/
def reassemble4 (packets : List (List Byte)) : Option (Datagram In4) :=
  (reassemble (packets.map piece4)).bind fun (k, data) =>
    if 20 + data.length ≤ 65535 then some ⟨k.1, k.2.1, k.2.2.1, data⟩ else none

/-- The same in IPv6, where the length does not count the header. -/
def reassemble6 (packets : List (List Byte)) : Option (Datagram In6) :=
  (reassemble (packets.map piece6)).bind fun (k, data) =>
    if data.length ≤ 65535 then some ⟨k.1, k.2.1, k.2.2.1, data⟩ else none

/-! ### Pieces with an adjusted checksum -/

/-- Transport bytes with their checksum adjusted by the change of the addresses. -/
def adjusted (e : Endian) (adjust : BitVec 16) (proto : Byte) (d : List Byte) : List Byte :=
  let off := if proto = 6 then 16 else 6
  putU16 e d off (cksumFix proto (onesAdd (getU16 e d off) adjust))

/-- A piece with its checksum adjusted, if it has one. -/
def adjustPiece (e : Endian) (adjust : BitVec 16) (proto : Byte) (p : Piece Byte) : Piece Byte :=
  if p.offset = 0 then { p with data := adjusted e adjust proto p.data } else p

section Adjusted

variable {e : Endian} {adjust : BitVec 16} {proto : Byte} {b d rest : List Byte} {bs : List (List Byte)}

private theorem put_append_left {i : Nat} {s : List Byte} (h : i + s.length ≤ d.length) :
    put (d ++ rest) i s = put d i s ++ rest := by
  unfold put
  rw [List.take_append_of_le_length (by omega), List.drop_append_of_le_length h, List.append_assoc (d.take i ++ s)]

theorem getBe16_append_left {i : Nat} (h : i + 2 ≤ d.length) : getBe16 (d ++ rest) i = getBe16 d i := by
  unfold getBe16
  rw [getU8_append_left (by omega), getU8_append_left (by omega)]

private theorem length_adjusted (h : transportMin proto ≤ d.length) :
    (adjusted e adjust proto d).length = d.length := length_putU16 (cksum_room h)

/-- Only the front matters, and only it is changed. -/
private theorem adjusted_append (h : transportMin proto ≤ d.length) :
    adjusted e adjust proto (d ++ rest) = adjusted e adjust proto d ++ rest := by
  have hroom := cksum_room h
  unfold adjusted getU16 putU16
  dsimp only
  rw [getBe16_append_left hroom, put_append_left (by rw [length_be16]; exact hroom)]

private theorem adjustPiece_eq (e : Endian) (adjust : BitVec 16) (proto : Byte) (s : Piece Byte) :
    adjustPiece e adjust proto s = ⟨s.offset, (adjustPiece e adjust proto s).data, s.more⟩ := by
  unfold adjustPiece
  split <;> rfl

/-- Adjusting the pieces is adjusting the first block. -/
private theorem adjust_pieces (h : transportMin proto ≤ b.length) :
    (pieces 0 false (b :: bs)).map (adjustPiece e adjust proto) = pieces 0 false (adjusted e adjust proto b :: bs) := by
  have hpos := eight_le_transportMin proto
  have hrest : (pieces (0 + b.length) false bs).map (adjustPiece e adjust proto) = pieces (0 + b.length) false bs := by
    refine (List.map_congr_left fun p hp => ?_).trans (List.map_id _)
    have hle := offset_le_of_mem_pieces hp
    exact if_neg (by omega)
  unfold pieces
  rw [List.map_cons, hrest, adjustPiece, if_pos rfl, length_adjusted h]

/-- The piece at offset 0 is the first block. -/
theorem data_of_offset {p : Piece Byte} (hb : 0 < b.length) (hp : p ∈ pieces 0 false (b :: bs)) (h0 : p.offset = 0) :
    p.data = b := by
  rcases List.mem_cons.1 hp with rfl | hp
  · rfl
  · have hle := offset_le_of_mem_pieces hp
    omega

/-- **Pieces translated one by one** are put together to the blocks with the checksum adjusted. -/
private theorem reassemble_adjusted {ι κ : Type} [DecidableEq κ] {l : List ι} {piece : ι → Piece Byte} {k : κ}
    {out : ι → List (κ × Piece Byte)} {packets : List (κ × Piece Byte)}
    (hpieces : (l.map piece).Perm (pieces 0 false (b :: bs))) (hfirst : transportMin proto ≤ b.length)
    (hout : ∀ a ∈ l, Refines ((out a).map Prod.snd) (adjustPiece e adjust proto (piece a)))
    (hkey : ∀ a ∈ l, ∀ f ∈ out a, f.1 = k) (hpackets : packets.Perm (l.flatMap out)) :
    reassemble packets = some (k, adjusted e adjust proto (b ++ bs.flatten)) := by
  have hperm := hpieces.map (adjustPiece e adjust proto)
  rw [List.map_map, adjust_pieces hfirst] at hperm
  have hwhole : Refines (l.map fun a => adjustPiece e adjust proto (piece a))
      ⟨0, (adjusted e adjust proto b :: bs).flatten, false⟩ :=
    (refines_pieces fun _ => List.cons_ne_nil _ _).perm hperm
  rw [List.flatten_cons, ← adjusted_append hfirst] at hwhole
  refine Refines.reassemble (fun f hf => ?_) ?_
  · obtain ⟨a, ha, hf⟩ := List.mem_flatMap.1 (hpackets.mem_iff.1 hf)
    exact hkey a ha f hf
  · have hall := hwhole.flatMap hout
    rw [← List.map_flatMap] at hall
    exact hall.perm (hpackets.map _)

end Adjusted

/-! ### From IPv4 -/

section From4

variable {g : Gcfg} {src dest : In6} {p q : Pkt4}

/-- A packet from IPv4 with nothing against sending it on between `src` and `dest`, and the answers it meets. -/
structure Arrival4 (g : Gcfg) (src dest : In6) where
  d : List Byte
  vhdr : Option VnetHdr
  offload : Bool
  ans : (op : PktOp) → op.Ans
  p : Pkt4
  hgso : isGso vhdr = false
  hparse : parseIp4 d vhdr false = .ok p
  hfull : needsCsum p.vhdr = false
  hvalid : Valid4 g p
  httl : p.ip4.ttl ≠ 1
  hlocal : p.ip4.dest ≠ g.localAddr4
  hfit : ¬FragmentPath g p → 40 + p.data.length ≤ g.mtu
  hsrc : ans (.mapIp4ToIp6 p.ip4.src) = .ok src
  hdest : ans (.mapIp4ToIp6 p.ip4.dest) = .ok dest
  hsent : Delivers ans

/-- What `handle_ip4` writes for it. -/
def Arrival4.out (a : Arrival4 g src dest) : List (List Byte) := written a.ans (handleIp4 g a.offload a.d a.vhdr)

/-- The packet as a piece of its datagram. -/
def Pkt4.piece (p : Pkt4) : Piece Byte := ⟨p.offset, p.data, p.ip4.flagsOffset &&& ip4FMf ≠ 0⟩

/-- The change of the addresses. -/
def adjust4to6 (g : Gcfg) (p : Pkt4) (src dest : In6) : BitVec 16 :=
  (payloadCtx4to6 g p (dataHeader4to6 p src dest)).adjust

/-- The packet has a checksum that is adjusted, unless it is a later fragment. -/
structure Adjusts4 (p : Pkt4) : Prop where
  hproto : p.dataProto ∈ adjustedProtos
  hmin : p.noninitial = false → transportMin p.dataProto ≤ p.data.length
  hgiven : p.noninitial = false → p.dataProto = 17 ∨ p.dataProto = 136 → getBe16 p.data 6 ≠ 0

private theorem noninitial_iff_offset : p.noninitial = false ↔ p.offset = 0 := by
  unfold Pkt4.noninitial Pkt4.offset
  rw [decide_eq_false_iff_not, not_not]
  constructor
  · intro h
    rw [h]
    rfl
  · intro h
    apply BitVec.eq_of_toNat_eq
    exact (Nat.mul_eq_zero.1 h).resolve_right (by decide)

/-- A packet that is no fragment is all of its datagram. -/
private theorem piece_of_whole (h : p.isFragment = false) : p.piece = ⟨0, p.data, false⟩ := by
  have hzero : p.ip4.flagsOffset &&& (ip4FMask ||| ip4FMf) = 0 := not_not.1 (of_decide_eq_false h)
  have hoffset := offset_eq_zero (and_eq_zero_of_and_or hzero)
  rw [BitVec.or_comm] at hzero
  unfold Pkt4.piece
  rw [hoffset, decide_eq_false (not_not.2 (and_eq_zero_of_and_or hzero))]

/-- `xlate_payload_4to6` adjusts the checksum of a first fragment, and leaves a later one as it is. -/
private theorem xlatePayload4to6_adjusted (src dest : In6) (hfull : needsCsum p.vhdr = false) (h : Adjusts4 p) :
    xlatePayload4to6 g p (dataHeader4to6 p src dest) false =
      some { p with data := (adjustPiece g.endian (adjust4to6 g p src dest) p.dataProto p.piece).data } := by
  unfold xlatePayload4to6
  rw [Option.map_eq_some_iff]
  refine ⟨((adjustPiece g.endian (adjust4to6 g p src dest) p.dataProto p.piece).data, p.vhdr), ?_, rfl⟩
  unfold adjustPiece
  rcases hnon : p.noninitial with _ | _
  · rw [if_pos (show p.piece.offset = 0 from noninitial_iff_offset.1 hnon)]
    exact xlatePayload_adjust h.hproto (show (1 : Byte) ∉ adjustedProtos by decide) hnon hfull (h.hmin hnon)
      (h.hgiven hnon)
  · have hoffset : p.piece.offset ≠ 0 := fun h0 =>
      Bool.false_ne_true ((noninitial_iff_offset.2 h0).symm.trans hnon)
    rw [if_neg hoffset]
    unfold xlatePayload
    rw [hfull, if_neg fun h => Bool.false_ne_true h.2, if_pos (show (payloadCtx4to6 g p _).noninitial = true from hnon)]
    rfl

/-- The packet gets to the end of the data path. -/
private theorem Arrival4.out_eq (a : Arrival4 g src dest) (hproto : a.p.dataProto ≠ 1) : a.out =
    written a.ans (xlate4to6Emit g a.p src dest (limit6 g - 40) (decide ¬FragmentPath g a.p)) := by
  have hplain : handleIp4 g a.offload a.d a.vhdr = xlate4to6Data g a.p := by
    unfold handleIp4
    rw [a.hgso, if_neg Bool.false_ne_true, handlePlain4_valid a.hparse a.hvalid, if_neg a.hlocal, if_neg a.httl,
      if_pos (show DataPacket4 a.p from .inl hproto)]
  unfold Arrival4.out
  rw [hplain]
  unfold xlate4to6Data
  rw [written_mapIp4ToIp6, a.hdest]
  dsimp only
  rw [written_mapIp4ToIp6, a.hsrc]
  dsimp only
  rw [show (if g.mtu < g.ipv6OfflinkMtu then g.mtu else g.ipv6OfflinkMtu) = limit6 g from rfl]
  by_cases hfrag : a.p.ip4.flagsOffset &&& (ip4FMask ||| ip4FMf) = 0
  · have hwhole : ¬a.p.isFragment := fun h => of_decide_eq_true h hfrag
    rw [if_pos hfrag]
    by_cases hdf : a.p.ip4.flagsOffset &&& ip4FDf = 0
    · have hpath : a.p.data.length ≤ limit6 g - 40 ↔ ¬FragmentPath g a.p := by
        rw [FragmentPath, or_iff_right hwhole, and_iff_right hdf, Nat.not_lt]
      rw [if_neg (not_not.2 hdf), decide_eq_decide.2 hpath]
    · have hpath : ¬FragmentPath g a.p := fun h => hdf (h.resolve_left hwhole).1
      rw [if_pos hdf, if_neg (Nat.not_lt.2 (a.hfit hpath)), decide_eq_true hpath]
  · have hpath : FragmentPath g a.p := .inl (decide_eq_true hfrag)
    rw [if_neg hfrag, decide_eq_false (not_not.2 hpath)]

/-- A fragment as the receiver sees it. -/
private theorem piece6_fragment {data packet : List Byte} {packets : List (List Byte)}
    (h : Fragments g p src dest data packets) (hmem : packet ∈ packets) :
    piece6 packet = ((src, dest, if p.dataProto = 1 then 58 else p.dataProto, some (p.ip4.ident.setWidth 32)),
      ⟨fragOffset packet, fragData packet, getBe16 packet 42 &&& ip6FMf ≠ 0⟩) := by
  obtain ⟨hlen, hheader⟩ := h.hheader packet hmem
  obtain ⟨hnext, hident⟩ := h.hfragment packet hmem
  have hdata : ip6Data packet = packet.drop 40 := by
    unfold ip6Data
    rw [hheader]
    refine List.take_of_length_le ?_
    dsimp only
    rw [List.length_drop, BitVec.toNat_ofNat]
    omega
  unfold piece6
  dsimp only
  rw [hheader, hdata, if_pos rfl, List.drop_drop]
  unfold Ip6Frag.ofBytes
  dsimp only
  rw [getU8_drop, getBe16_drop, getBe32_drop, hnext, hident]
  rfl

/-- **The fragments of a packet** are pieces of the piece it is, with its payload translated. -/
private theorem refines_fragments {data : List Byte} {packets : List (List Byte)}
    (h : Fragments g p src dest data packets) (hdata : p.piece.more = false → data ≠ []) :
    Refines ((packets.map piece6).map Prod.snd) ⟨p.offset, data, p.piece.more⟩ := by
  generalize hps : (packets.map piece6).map Prod.snd = ps
  have hlen : ps.length = packets.length := by rw [← hps, List.length_map, List.length_map]
  have hget : ∀ i, ∀ hi : i < ps.length,
      ps[i] = ⟨fragOffset packets[i], fragData packets[i], getBe16 packets[i] 42 &&& ip6FMf ≠ 0⟩ := by
    intro i hi
    simp only [← hps, List.getElem_map]
    rw [piece6_fragment h (List.getElem_mem _)]
  have hflatten : (ps.map Piece.data).flatten = data := by
    have hmap : ps.map Piece.data = packets.map fragData := by
      rw [← hps, List.map_map, List.map_map]
      refine List.map_congr_left fun packet hmem => ?_
      rw [Function.comp_apply, Function.comp_apply, piece6_fragment h hmem]
    rw [hmap, ← List.flatMap_def]
    exact h.hdata
  have hpieces : ps = pieces p.offset p.piece.more (ps.map Piece.data) := by
    refine eq_pieces (fun hi => ?_) (fun i hi => ?_) fun i hi hend => ?_
    · rw [hget]
      exact h.hfirst (by omega)
    · rw [hget, hget]
      exact ⟨h.hnext i (by omega), decide_eq_true (h.hfull i (by omega)).2⟩
    · rw [hget]
      exact decide_eq_decide.2 (h.hlast i (by omega) (by omega))
  rw [hpieces, ← hflatten]
  refine refines_pieces fun hmore hnil => hdata hmore ?_
  rw [← hflatten, hnil]
  rfl

/-- A packet without a fragment header as the receiver sees it. -/
private theorem piece6_whole {h : Ip6} {data : List Byte} (hnext : h.nextHeader ≠ 44)
    (hlen : h.payloadLength.toNat = data.length) :
    piece6 (h.toBytes ++ data) = ((h.src, h.dest, h.nextHeader, none), ⟨0, data, false⟩) := by
  have hdata : ip6Data (h.toBytes ++ data) = data := by
    unfold ip6Data
    rw [Ip6.ofBytes_toBytes, List.drop_left' (length_ip6 h), hlen, List.take_length]
  unfold piece6
  dsimp only
  rw [Ip6.ofBytes_toBytes, if_neg hnext, hdata]

/-- **What is written for a packet** are pieces of the piece it is, with the checksum adjusted, from `src` to `dest`. -/
private theorem Arrival4.sent (a : Arrival4 g src dest) (hmtu : mtuMin ≤ g.mtu) (hofflink : mtuMin ≤ g.ipv6OfflinkMtu)
    (h : Adjusts4 a.p) (hdata : a.p.piece.more = false → a.p.data ≠ []) :
    Refines ((a.out.map piece6).map Prod.snd)
      (adjustPiece g.endian (adjust4to6 g a.p src dest) a.p.dataProto a.p.piece) ∧
    ∀ packet ∈ a.out, (piece6 packet).1 =
      (src, dest, a.p.dataProto, if FragmentPath g a.p then some (a.p.ip4.ident.setWidth 32) else none) := by
  have hproto : a.p.dataProto ≠ 1 := (adjusted_ne_icmp h.hproto).1
  have hq := xlatePayload4to6_adjusted src dest a.hfull h (g := g)
  have hp := parsed4_of_parseIp4 a.hparse
  have hlen := length_payload4to6 hp hq
  rw [adjustPiece_eq]
  generalize (adjustPiece g.endian (adjust4to6 g a.p src dest) a.p.dataProto a.p.piece).data = data at hq hlen
  dsimp only at hlen
  have hshort : data.length ≤ 65515 := by
    have := hp.hlen
    have := hp.hmin
    have := a.p.ip4.length.isLt
    omega
  have hnil : a.p.piece.more = false → data ≠ [] := by
    rintro hmore rfl
    exact hdata hmore (List.length_eq_zero_iff.1 hlen.symm)
  obtain ⟨t, hruns, hout, hans⟩ := exists_run a.ans (xlate4to6Emit g a.p src dest (limit6 g - 40)
    (decide ¬FragmentPath g a.p))
  rw [a.out_eq hproto, ← hout]
  by_cases hpath : FragmentPath g a.p
  · have hlimit := limit6_ge hmtu hofflink
    rw [decide_eq_false (not_not.2 hpath)] at hruns
    rcases xlate4to6Emit_fragments (by omega) (a.hsent.allSent hans) hruns with ⟨hnone, -⟩ | ⟨q, hq', houtputs⟩
    · cases hnone.symm.trans hq
    cases hq'.symm.trans hq
    have hcomplete : completeCsum g { a.p with data := data } (dataHeader4to6 a.p src dest) = data := by
      unfold completeCsum
      rw [a.hfull, if_neg Bool.false_ne_true]
    have hfragments : Fragments g a.p src dest data (outputs t) := by
      rw [houtputs, hcomplete]
      refine fragmentsOf_fragments src dest (by omega) (Nat.dvd_mul_left 8 _) (by omega) decide_eq_true_iff ?_ hshort
      rw [hlen]
      exact parseIp4_offset a.hparse
    refine ⟨refines_fragments hfragments hnil, fun packet hmem => ?_⟩
    rw [piece6_fragment hfragments hmem, if_pos hpath, if_neg hproto]
  · rw [decide_eq_true hpath] at hruns
    rcases xlate4to6Emit_whole hruns with ⟨hnone, -⟩ | ⟨q, hq', houtputs⟩
    · cases hnone.symm.trans hq
    cases hq'.symm.trans hq
    have hwhole := piece_of_whole (Bool.eq_false_iff.2 fun hfragment => hpath (.inl hfragment))
    have hnext : (dataHeader4to6 a.p src dest).nextHeader = a.p.dataProto := if_neg hproto
    have hpiece : piece6 ((dataHeader4to6 a.p src dest).toBytes ++ data) =
        ((src, dest, a.p.dataProto, none), ⟨0, data, false⟩) := by
      rw [piece6_whole, hnext]
      · rfl
      · rw [hnext]
        rintro h44
        exact absurd (h44 ▸ h.hproto) (by decide)
      · refine (BitVec.toNat_ofNat _ _).trans ?_
        omega
    rw [houtputs]
    refine ⟨?_, fun packet hmem => ?_⟩
    · rw [List.map_cons, List.map_cons, hpiece, hwhole]
      exact Refines.refl _
    · rw [List.mem_singleton.1 hmem, hpiece, if_neg hpath]

private theorem adjust4to6_congr {p' : Pkt4} (hsrc : p'.ip4.src = p.ip4.src) (hdest : p'.ip4.dest = p.ip4.dest) :
    adjust4to6 g p' src dest = adjust4to6 g p src dest := by
  unfold adjust4to6 payloadCtx4to6 convertCksum
  dsimp only
  rw [hsrc, hdest]
  rfl

/-- What packets of one datagram have in common. -/
structure SameDatagram4 (p p' : Pkt4) : Prop where
  hsrc : p'.ip4.src = p.ip4.src
  hdest : p'.ip4.dest = p.ip4.dest
  hproto : p'.dataProto = p.dataProto
  hident : p'.ip4.ident = p.ip4.ident

/-- The datagram `p`, which is no fragment, has a checksum that is adjusted. -/
structure Transport4 (p : Pkt4) : Prop extends Whole4 p where
  hproto : p.dataProto ∈ adjustedProtos
  hgiven : p.dataProto = 17 ∨ p.dataProto = 136 → getBe16 p.data 6 ≠ 0

/-- The packets are the fragments of the datagram `p`, in any order: each of them carries one of the blocks `b :: bs`,
of which the first one has the whole transport header. -/
structure Fragmented4 (p : Pkt4) (b : List Byte) (bs : List (List Byte)) (l : List (Arrival4 g src dest)) : Prop where
  hsame : ∀ a ∈ l, SameDatagram4 p a.p
  hdata : p.data = b ++ bs.flatten
  hfirst : transportMin p.dataProto ≤ b.length
  hpieces : (l.map fun a => a.p.piece).Perm (pieces 0 false (b :: bs))

section Fragmented

variable {b : List Byte} {bs : List (List Byte)} {l : List (Arrival4 g src dest)}

private theorem Fragmented4.adjusts (h : Fragmented4 p b bs l) (hp : Transport4 p) {a : Arrival4 g src dest}
    (ha : a ∈ l) : Adjusts4 a.p := by
  have hproto := (h.hsame a ha).hproto
  have hfirst : a.p.noninitial = false → a.p.data = b := fun hnon =>
    data_of_offset (by have := (eight_le_transportMin p.dataProto).trans h.hfirst; omega)
      (h.hpieces.mem_iff.1 (List.mem_map_of_mem ha)) (noninitial_iff_offset.1 hnon)
  refine ⟨hproto ▸ hp.hproto, fun hnon => ?_, fun hnon hudp => ?_⟩
  · rw [hfirst hnon, hproto]
    exact h.hfirst
  · rw [hproto] at hudp
    have hgiven := hp.hgiven hudp
    have hroom : 8 ≤ b.length := (eight_le_transportMin _).trans h.hfirst
    rwa [h.hdata, getBe16_append_left hroom, ← hfirst hnon] at hgiven

private theorem Fragmented4.min (h : Fragmented4 p b bs l) : transportMin p.dataProto ≤ p.data.length := by
  have := h.hfirst
  rw [h.hdata, List.length_append]
  omega

/-- **The fragments are translated to the datagram**, in whatever order they come and their pieces are delivered. -/
private theorem Fragmented4.reassembled (h : Fragmented4 p b bs l) (hp : Transport4 p) (hmtu : mtuMin ≤ g.mtu)
    (hofflink : mtuMin ≤ g.ipv6OfflinkMtu) (hlast : ∀ a ∈ l, a.p.piece.more = false → a.p.data ≠ [])
    {ident : Option (BitVec 32)}
    (hident : ∀ a ∈ l, (if FragmentPath g a.p then some (a.p.ip4.ident.setWidth 32) else none) = ident)
    {packets : List (List Byte)} (hpackets : packets.Perm (l.flatMap Arrival4.out)) :
    reassemble6 packets =
      some ⟨src, dest, p.dataProto, adjusted g.endian (adjust4to6 g p src dest) p.dataProto p.data⟩ := by
  have hsent := fun a ha => Arrival4.sent a hmtu hofflink (h.adjusts hp ha) (hlast a ha)
  have hmap := hpackets.map piece6
  rw [List.map_flatMap] at hmap
  have hput : reassemble (packets.map piece6) = some ((src, dest, p.dataProto, ident),
      adjusted g.endian (adjust4to6 g p src dest) p.dataProto (b ++ bs.flatten)) := by
    refine reassemble_adjusted h.hpieces h.hfirst (fun a ha => ?_) (fun a ha f hf => ?_) hmap
    · have hsame := h.hsame a ha
      rw [← adjust4to6_congr hsame.hsrc hsame.hdest, ← hsame.hproto]
      exact (hsent a ha).1
    · obtain ⟨packet, hmem, rfl⟩ := List.mem_map.1 hf
      rw [(hsent a ha).2 packet hmem, (h.hsame a ha).hproto, hident a ha]
  have hlen := hp.short
  unfold reassemble6
  rw [hput, ← h.hdata, Option.bind_some]
  dsimp only
  rw [if_pos (by rw [length_adjusted h.min]; omega)]

/-- A datagram is its only piece. -/
private theorem Transport4.fragmented (hp : Transport4 p) (hmin : transportMin p.dataProto ≤ p.data.length)
    {w : Arrival4 g src dest} (hw : w.p = p) : Fragmented4 p p.data [] [w] := by
  refine ⟨fun a ha => ?_, (List.append_nil _).symm, hmin, ?_⟩
  · rw [List.mem_singleton.1 ha, hw]
    exact ⟨rfl, rfl, rfl, rfl⟩
  · rw [List.map_singleton, hw, piece_of_whole hp.hwhole]
    exact List.Perm.refl _

/-- Of several pieces each is a fragment. -/
private theorem Fragmented4.fragment (h : Fragmented4 p b bs l) (hbs : bs ≠ []) {a : Arrival4 g src dest}
    (ha : a ∈ l) : FragmentPath g a.p := by
  have hfirst := (eight_le_transportMin p.dataProto).trans h.hfirst
  have hmem : a.p.piece ∈ pieces 0 false (b :: bs) := h.hpieces.mem_iff.1 (List.mem_map_of_mem ha)
  refine .inl (decide_eq_true fun hzero => ?_)
  rcases offset_or_more_of_mem_pieces hmem (by omega) hbs with hoffset | hmore
  · exact hoffset (offset_eq_zero (and_eq_zero_of_and_or hzero))
  · rw [BitVec.or_comm] at hzero
    exact of_decide_eq_true hmore (and_eq_zero_of_and_or hzero)

/-- What a receiver of the fragments and one of the whole datagram `p` have is the same, with `data` behind the
headers. -/
structure Commutes4 (p : Pkt4) (l : List (Arrival4 g src dest)) (data : List Byte) : Prop where
  hfragments : ∀ packets : List (List Byte), packets.Perm (l.flatMap Arrival4.out) →
    reassemble6 packets = some ⟨src, dest, p.dataProto, data⟩
  hwhole : ∀ w : Arrival4 g src dest, w.p = p → reassemble6 w.out = some ⟨src, dest, p.dataProto, data⟩

private theorem Fragmented4.commutes (h : Fragmented4 p b bs l) (hp : Transport4 p) (hmtu : mtuMin ≤ g.mtu)
    (hofflink : mtuMin ≤ g.ipv6OfflinkMtu) (hlast : ∀ a ∈ l, a.p.piece.more = false → a.p.data ≠ []) :
    ∃ q, xlatePayload4to6 g p (dataHeader4to6 p src dest) false = some q ∧ Commutes4 p l q.data := by
  have hq := xlatePayload4to6_adjusted src dest hp.hfull ⟨hp.hproto, fun _ => h.min, fun _ => hp.hgiven⟩ (g := g)
  rw [piece_of_whole hp.hwhole] at hq
  refine ⟨_, hq, fun packets hpackets => ?_, fun w hw => ?_⟩
  · by_cases hbs : bs = []
    · -- one piece
      subst hbs
      obtain ⟨a, rfl⟩ : ∃ a, l = [a] := by
        have hlen := h.hpieces.length_eq
        rw [List.length_map] at hlen
        exact List.length_eq_one_iff.1 hlen
      exact h.reassembled hp hmtu hofflink hlast (fun a' ha => by rw [List.mem_singleton.1 ha]) hpackets
    · have hident : ∀ a ∈ l, (if FragmentPath g a.p then some (a.p.ip4.ident.setWidth 32) else none) =
          some (p.ip4.ident.setWidth 32) := by
        intro a ha
        rw [if_pos (h.fragment hbs ha), (h.hsame a ha).hident]
      exact h.reassembled hp hmtu hofflink hlast hident hpackets
  · refine (hp.fragmented h.min hw).reassembled hp hmtu hofflink (fun a ha _ hnil => ?_)
      (fun a ha => by rw [List.mem_singleton.1 ha]) (by rw [List.flatMap_singleton])
    have hmin := (eight_le_transportMin p.dataProto).trans h.min
    rw [List.mem_singleton.1 ha, hw] at hnil
    rw [hnil] at hmin
    exact absurd hmin (by decide)

end Fragmented

end From4

/-! ### From IPv6 -/

section From6

variable {g : Gcfg} {src dest : In4} {p q : Pkt6}

/-- A packet from IPv6 with nothing against sending it on between `src` and `dest`, and the answers it meets. -/
structure Arrival6 (g : Gcfg) (src dest : In4) where
  d : List Byte
  vhdr : Option VnetHdr
  offload : Bool
  ans : (op : PktOp) → op.Ans
  p : Pkt6
  hgso : isGso vhdr = false
  hparse : parseIp6 d vhdr false = .ok p
  hfull : needsCsum p.vhdr = false
  hvalid : Valid6 g p
  hhops : p.ip6.hopLimit ≠ 1
  hlocal : p.ip6.dest ≠ g.localAddr6
  hfit : 40 + p.data.length ≤ g.mtu
  hsrc : ans (.mapIp6ToIp4 p.ip6.src true) = .ok src
  hdest : ans (.mapIp6ToIp4 p.ip6.dest false) = .ok dest

/-- What `handle_ip6` writes for it. -/
def Arrival6.out (a : Arrival6 g src dest) : List (List Byte) := written a.ans (handleIp6 g a.offload a.d a.vhdr)

/-- The packet as a piece of its datagram. -/
def Pkt6.piece (p : Pkt6) : Piece Byte :=
  ⟨p.frag.elim 0 fun f => (f.offsetFlags &&& ip6FMask).toNat, p.data,
    p.frag.any fun f => f.offsetFlags &&& ip6FMf ≠ 0⟩

/-- The change of the addresses. -/
def adjust6to4 (g : Gcfg) (p : Pkt6) (src dest : In4) : BitVec 16 :=
  (payloadCtx6to4 g p (dataHeader6to4 p src dest (0, 0))).adjust

/-- The packet has a checksum that is adjusted, unless it is a later fragment. -/
structure Adjusts6 (p : Pkt6) : Prop where
  hproto : p.dataProto ∈ adjustedProtos
  hmin : p.noninitial = false → transportMin p.dataProto ≤ p.data.length
  hgiven : p.noninitial = false → p.dataProto = 17 ∨ p.dataProto = 136 → getBe16 p.data 6 ≠ 0

private theorem noninitial_iff_offset6 : p.noninitial = false ↔ p.piece.offset = 0 := by
  unfold Pkt6.noninitial Pkt6.piece
  rcases p.frag with _ | f
  · exact iff_of_true rfl rfl
  · change decide (f.offsetFlags &&& ip6FMask ≠ 0) = false ↔ (f.offsetFlags &&& ip6FMask).toNat = 0
    rw [decide_eq_false_iff_not, not_not]
    exact (BitVec.toNat_inj (y := 0#16)).symm

/-- `xlate_payload_6to4` adjusts the checksum of a first fragment, and leaves a later one as it is. -/
private theorem xlatePayload6to4_adjusted (src dest : In4) (ident : BitVec 16 × BitVec 16)
    (hfull : needsCsum p.vhdr = false) (h : Adjusts6 p) :
    xlatePayload6to4 g p (dataHeader6to4 p src dest ident) false =
      some { p with data := (adjustPiece g.endian (adjust6to4 g p src dest) p.dataProto p.piece).data } := by
  unfold xlatePayload6to4
  rw [Option.map_eq_some_iff]
  refine ⟨((adjustPiece g.endian (adjust6to4 g p src dest) p.dataProto p.piece).data, p.vhdr), ?_, rfl⟩
  unfold adjustPiece
  rcases hnon : p.noninitial with _ | _
  · rw [if_pos (noninitial_iff_offset6.1 hnon)]
    exact xlatePayload_adjust h.hproto (show (58 : Byte) ∉ adjustedProtos by decide) hnon hfull (h.hmin hnon)
      (h.hgiven hnon)
  · have hoffset : p.piece.offset ≠ 0 := fun h0 =>
      Bool.false_ne_true ((noninitial_iff_offset6.2 h0).symm.trans hnon)
    rw [if_neg hoffset]
    unfold xlatePayload
    rw [hfull, if_neg fun h => Bool.false_ne_true h.2, if_pos (show (payloadCtx6to4 g p _).noninitial = true from hnon)]
    rfl

/-- The packet gets to the end of the data path. -/
private theorem Arrival6.out_eq (a : Arrival6 g src dest) (hproto : a.p.dataProto ≠ 58) :
    a.out = written a.ans (xlate6to4Emit g a.p src dest) := by
  have hplain : handleIp6 g a.offload a.d a.vhdr = xlate6to4Data g a.p := by
    unfold handleIp6
    rw [a.hgso, if_neg Bool.false_ne_true, handlePlain6_valid a.hparse a.hvalid, if_neg a.hlocal, if_neg a.hhops,
      if_pos (show DataPacket6 a.p from .inl hproto)]
  unfold Arrival6.out
  rw [hplain]
  unfold xlate6to4Data
  rw [written_mapIp6ToIp4, a.hdest]
  dsimp only
  rw [written_mapIp6ToIp4, a.hsrc]
  dsimp only
  rw [if_neg (Nat.not_lt.2 a.hfit)]

/-- Offset and M flag in the two formats. -/
private theorem flags_6to4 (f : BitVec 16) :
    let flags := (if f &&& ip6FMf ≠ 0 then f >>> 3 ||| ip4FMf else f >>> 3) &&& ~~~ip4FDf
    (flags &&& ip4FMask).toNat * 8 = (f &&& ip6FMask).toNat ∧ (flags &&& ip4FMf ≠ 0 ↔ f &&& ip6FMf ≠ 0) := by
  have hlt : (f >>> 3).toNat < 8192 := by
    rw [BitVec.toNat_ushiftRight, Nat.shiftRight_eq_div_pow]
    have := f.isLt
    omega
  have hmask : f >>> 3 &&& ip4FMask = f >>> 3 := by
    apply BitVec.eq_of_toNat_eq
    rw [BitVec.toNat_and]
    exact (Nat.and_two_pow_sub_one_eq_mod _ 13).trans (Nat.mod_eq_of_lt hlt)
  have hoffset : (f &&& ip6FMask).toNat = (f >>> 3).toNat * 8 := by
    rw [show ip6FMask = BitVec.allOnes 16 <<< 3 by decide, ← BitVec.shiftLeft_ushiftRight, BitVec.toNat_shiftLeft,
      Nat.shiftLeft_eq]
    exact Nat.mod_eq_of_lt (show (f >>> 3).toNat * 8 < 2 ^ 16 by omega)
  have hflag : f >>> 3 &&& ip4FMf = 0 := by
    rw [← hmask, BitVec.and_assoc, show ip4FMask &&& ip4FMf = 0 by decide]
    exact BitVec.and_zero
  dsimp only
  rw [BitVec.and_assoc, BitVec.and_assoc, show ~~~ip4FDf &&& ip4FMask = ip4FMask by decide,
    show ~~~ip4FDf &&& ip4FMf = ip4FMf by decide, hoffset]
  by_cases hmf : f &&& ip6FMf ≠ 0
  · rw [if_pos hmf, BitVec.and_comm, BitVec.and_or_distrib_left, BitVec.and_comm, hmask,
      show ip4FMask &&& ip4FMf = 0#16 by decide, BitVec.or_zero, BitVec.and_comm, BitVec.and_or_distrib_left,
      BitVec.and_comm, hflag]
    exact ⟨rfl, iff_of_true (by decide) hmf⟩
  · rw [if_neg hmf, hmask, hflag]
    exact ⟨rfl, iff_of_false (not_not.2 rfl) hmf⟩

/-- Offset and M flag of the packet that is sent. -/
private theorem sentHeader4_piece (ans : (op : PktOp) → op.Ans) (p : Pkt6) (src dest : In4) :
    ((sentHeader4 ans p src dest).flagsOffset &&& ip4FMask).toNat * 8 = p.piece.offset ∧
    decide ((sentHeader4 ans p src dest).flagsOffset &&& ip4FMf ≠ 0) = p.piece.more := by
  unfold sentHeader4 dataHeader6to4 xlateIdent6to4 Pkt6.piece
  dsimp only
  rcases p.frag with _ | f
  · dsimp only
    split
    · change ((0 : BitVec 16) &&& ip4FMask).toNat * 8 = 0 ∧ decide ((0 : BitVec 16) &&& ip4FMf ≠ 0) = false
      decide
    · change (ip4FDf &&& ip4FMask).toNat * 8 = 0 ∧ decide (ip4FDf &&& ip4FMf ≠ 0) = false
      decide
  · obtain ⟨hoffset, hmore⟩ := flags_6to4 f.offsetFlags
    exact ⟨hoffset, decide_eq_decide.2 hmore⟩

/-- A packet without options as the receiver sees it. -/
private theorem piece4_packet {e : Endian} {h : Ip4} {data : List Byte} (hihl : h.verIhl = 0x45)
    (hlen : h.length.toNat = 20 + data.length) :
    piece4 ((h.withCksum e).toBytes ++ data) = ((h.src, h.dest, h.proto, h.ident),
      ⟨(h.flagsOffset &&& ip4FMask).toNat * 8, data, h.flagsOffset &&& ip4FMf ≠ 0⟩) := by
  have htake : ((h.withCksum e).toBytes ++ data).length ≤ 20 + data.length := by
    rw [List.length_append, length_ip4]
  have hdata : ip4Data ((h.withCksum e).toBytes ++ data) = data := by
    unfold ip4Data
    rw [Ip4.ofBytes_toBytes, show (h.withCksum e).length.toNat = 20 + data.length from hlen,
      List.take_of_length_le htake, show (h.withCksum e).verIhl = 0x45 from hihl,
      show ((0x45 : Byte) &&& 0x0f).toNat * 4 = 20 by decide]
    exact List.drop_left' (length_ip4 _)
  unfold piece4
  dsimp only
  rw [hdata, Ip4.ofBytes_toBytes]
  rfl

/-- **What is written for a packet** is the piece it is, with the checksum adjusted, from `src` to `dest`. -/
private theorem Arrival6.sent (a : Arrival6 g src dest) (h : Adjusts6 a.p) (hlen : 20 + a.p.data.length ≤ 65535) :
    a.out.map piece4 = [((src, dest, a.p.dataProto, (sentHeader4 a.ans a.p src dest).ident),
      adjustPiece g.endian (adjust6to4 g a.p src dest) a.p.dataProto a.p.piece)] := by
  have hproto : a.p.dataProto ≠ 58 := (adjusted_ne_icmp h.hproto).2.1
  have hq : xlatePayload6to4 g a.p (sentHeader4 a.ans a.p src dest) false = _ :=
    xlatePayload6to4_adjusted src dest _ a.hfull h
  have hlength := hq
  unfold xlatePayload6to4 at hlength
  obtain ⟨r, hr, hdata⟩ := Option.map_eq_some_iff.1 hlength
  replace hlength := length_xlatePayload hr fun h58 => absurd h58 hproto
  rw [show r.1 = _ from congrArg Pkt6.data hdata] at hlength
  rw [adjustPiece_eq]
  dsimp only at hlength
  generalize (adjustPiece g.endian (adjust6to4 g a.p src dest) a.p.dataProto a.p.piece).data = data at hq hlength
  have hsame : (sentHeader4 a.ans a.p src dest).proto = a.p.dataProto := if_neg hproto
  obtain ⟨hoffset, hmore⟩ := sentHeader4_piece a.ans a.p src dest
  have hpiece : piece4 (((sentHeader4 a.ans a.p src dest).withCksum g.endian).toBytes ++ data) =
      ((src, dest, a.p.dataProto, (sentHeader4 a.ans a.p src dest).ident),
        ⟨a.p.piece.offset, data, a.p.piece.more⟩) := by
    have hihl : (sentHeader4 a.ans a.p src dest).verIhl = 0x45 := rfl
    have htotal : (sentHeader4 a.ans a.p src dest).length.toNat = 20 + data.length := by
      rw [hlength]
      exact (BitVec.toNat_ofNat _ _).trans (Nat.mod_eq_of_lt (by omega))
    rw [piece4_packet hihl htotal, hoffset, hmore, hsame]
    rfl
  rw [a.out_eq hproto, written_xlate6to4Emit, hq]
  exact congrArg (fun f => [f]) hpiece

private theorem adjust6to4_congr {p' : Pkt6} (hsrc : p'.ip6.src = p.ip6.src) (hdest : p'.ip6.dest = p.ip6.dest) :
    adjust6to4 g p' src dest = adjust6to4 g p src dest := by
  unfold adjust6to4 payloadCtx6to4 convertCksum
  dsimp only
  rw [hsrc, hdest]
  rfl

/-- What packets of one datagram have in common. -/
structure SameDatagram6 (p p' : Pkt6) : Prop where
  hsrc : p'.ip6.src = p.ip6.src
  hdest : p'.ip6.dest = p.ip6.dest
  hproto : p'.dataProto = p.dataProto

/-- The datagram `p`, which is no fragment, has a checksum that is adjusted. -/
structure Transport6 (p : Pkt6) : Prop extends Whole6 p where
  hproto : p.dataProto ∈ adjustedProtos
  hgiven : p.dataProto = 17 ∨ p.dataProto = 136 → getBe16 p.data 6 ≠ 0

/-- The packets are the fragments of the datagram `p`, in any order: each of them carries one of the blocks `b :: bs`
right behind its fragment header, of which the first one has the whole transport header. -/
structure Fragmented6 (p : Pkt6) (ident : BitVec 32) (b : List Byte) (bs : List (List Byte))
    (l : List (Arrival6 g src dest)) : Prop where
  hsame : ∀ a ∈ l, SameDatagram6 p a.p
  hident : ∀ a ∈ l, ∀ f ∈ a.p.frag, f.ident = ident
  hdata : p.data = b ++ bs.flatten
  hfirst : transportMin p.dataProto ≤ b.length
  hpieces : (l.map fun a => a.p.piece).Perm (pieces 0 false (b :: bs))

section Fragmented

variable {ident : BitVec 32} {b : List Byte} {bs : List (List Byte)} {l : List (Arrival6 g src dest)}

private theorem Fragmented6.adjusts (h : Fragmented6 p ident b bs l) (hp : Transport6 p) {a : Arrival6 g src dest}
    (ha : a ∈ l) : Adjusts6 a.p := by
  have hproto := (h.hsame a ha).hproto
  have hfirst : a.p.noninitial = false → a.p.data = b := fun hnon =>
    data_of_offset (by have := (eight_le_transportMin p.dataProto).trans h.hfirst; omega)
      (h.hpieces.mem_iff.1 (List.mem_map_of_mem ha)) (noninitial_iff_offset6.1 hnon)
  refine ⟨hproto ▸ hp.hproto, fun hnon => ?_, fun hnon hudp => ?_⟩
  · rw [hfirst hnon, hproto]
    exact h.hfirst
  · rw [hproto] at hudp
    have hgiven := hp.hgiven hudp
    have hroom : 8 ≤ b.length := (eight_le_transportMin _).trans h.hfirst
    rwa [h.hdata, getBe16_append_left hroom, ← hfirst hnon] at hgiven

/-- No piece is longer than the datagram. -/
private theorem Fragmented6.length_le (h : Fragmented6 p ident b bs l) {a : Arrival6 g src dest} (ha : a ∈ l) :
    a.p.data.length ≤ p.data.length := by
  have hmem : a.p.piece ∈ pieces 0 false (b :: bs) := h.hpieces.mem_iff.1 (List.mem_map_of_mem ha)
  rw [h.hdata]
  exact length_le_of_mem_pieces hmem

/-- **The pieces of the fragments are put together** to the datagram, in whatever order they come. -/
private theorem Fragmented6.reassemble (h : Fragmented6 p ident b bs l) (hp : Transport6 p)
    (hlen : ∀ a ∈ l, 20 + a.p.data.length ≤ 65535) {ident' : BitVec 16}
    (hident : ∀ a ∈ l, (sentHeader4 a.ans a.p src dest).ident = ident')
    {packets : List (List Byte)} (hpackets : packets.Perm (l.flatMap Arrival6.out)) :
    reassemble (packets.map piece4) = some ((src, dest, p.dataProto, ident'),
      adjusted g.endian (adjust6to4 g p src dest) p.dataProto p.data) := by
  have hsent := fun a ha => Arrival6.sent a (h.adjusts hp ha) (hlen a ha)
  have hmap := hpackets.map piece4
  rw [List.map_flatMap] at hmap
  rw [h.hdata]
  refine reassemble_adjusted h.hpieces h.hfirst (fun a ha => ?_) (fun a ha f hf => ?_) hmap
  · have hsame := h.hsame a ha
    rw [hsent a ha, ← adjust6to4_congr hsame.hsrc hsame.hdest, ← hsame.hproto]
    exact Refines.refl _
  · rw [hsent a ha] at hf
    rw [List.mem_singleton.1 hf, (h.hsame a ha).hproto, hident a ha]

private theorem Fragmented6.min (h : Fragmented6 p ident b bs l) : transportMin p.dataProto ≤ p.data.length := by
  have := h.hfirst
  rw [h.hdata, List.length_append]
  omega

/-- **The fragments are translated to the datagram**, if it is none too long. -/
private theorem Fragmented6.reassembled (h : Fragmented6 p ident b bs l) (hp : Transport6 p)
    (hlen : 20 + p.data.length ≤ 65535) {ident' : BitVec 16}
    (hident : ∀ a ∈ l, (sentHeader4 a.ans a.p src dest).ident = ident')
    {packets : List (List Byte)} (hpackets : packets.Perm (l.flatMap Arrival6.out)) :
    reassemble4 packets =
      some ⟨src, dest, p.dataProto, adjusted g.endian (adjust6to4 g p src dest) p.dataProto p.data⟩ := by
  have hshort : ∀ a ∈ l, 20 + a.p.data.length ≤ 65535 := by
    intro a ha
    have := h.length_le ha
    omega
  unfold reassemble4
  rw [h.reassemble hp hshort hident hpackets, Option.bind_some]
  dsimp only
  rw [if_pos (by rw [length_adjusted h.min]; exact hlen)]

private theorem Transport6.piece (hp : Transport6 p) : p.piece = ⟨0, p.data, false⟩ := by
  have hwhole := hp.hwhole
  unfold Pkt6.piece
  rcases hfrag : p.frag with _ | f
  · rfl
  · rw [hfrag] at hwhole
    have hzero : f.offsetFlags &&& (ip6FMask ||| ip6FMf) = 0 := not_not.1 (of_decide_eq_false hwhole)
    have hoffset := and_eq_zero_of_and_or hzero
    rw [BitVec.or_comm] at hzero
    have hmore := and_eq_zero_of_and_or hzero
    change (⟨(f.offsetFlags &&& ip6FMask).toNat, p.data, decide (f.offsetFlags &&& ip6FMf ≠ 0)⟩ : Piece Byte) = _
    rw [hoffset, decide_eq_false (not_not.2 hmore)]
    rfl

/-- A datagram is its only piece. -/
private theorem Transport6.fragmented (hp : Transport6 p) (hmin : transportMin p.dataProto ≤ p.data.length)
    {w : Arrival6 g src dest} (hw : w.p = p) : ∃ ident, Fragmented6 p ident p.data [] [w] := by
  refine ⟨(p.frag.map Ip6Frag.ident).getD 0, fun a ha => ?_, fun a ha f hf => ?_, (List.append_nil _).symm, hmin, ?_⟩
  · rw [List.mem_singleton.1 ha, hw]
    exact ⟨rfl, rfl, rfl⟩
  · rw [List.mem_singleton.1 ha, hw] at hf
    rw [hf]
    rfl
  · rw [List.map_singleton, hw, hp.piece]
    exact List.Perm.refl _

/-- Each of several pieces has a fragment header, with the identification of the datagram. -/
private theorem Fragmented6.sentIdent (h : Fragmented6 p ident b bs l) (hbs : bs ≠ []) {a : Arrival6 g src dest}
    (ha : a ∈ l) : (sentHeader4 a.ans a.p src dest).ident = ident.setWidth 16 := by
  have hfirst := (eight_le_transportMin p.dataProto).trans h.hfirst
  have hmem : a.p.piece ∈ pieces 0 false (b :: bs) := h.hpieces.mem_iff.1 (List.mem_map_of_mem ha)
  have hpiece := offset_or_more_of_mem_pieces hmem (by omega) hbs
  have hident := h.hident a ha
  unfold Pkt6.piece at hpiece
  unfold sentHeader4 dataHeader6to4 xlateIdent6to4
  rcases hfrag : a.p.frag with _ | f
  · rw [hfrag] at hpiece
    exact absurd hpiece (by simp)
  · exact congrArg (BitVec.setWidth 16) (hident f hfrag)

/-- The same as `Commutes4`, to IPv4. -/
structure Commutes6 (p : Pkt6) (l : List (Arrival6 g src dest)) (data : List Byte) : Prop where
  hfragments : ∀ packets : List (List Byte), packets.Perm (l.flatMap Arrival6.out) →
    reassemble4 packets = some ⟨src, dest, p.dataProto, data⟩
  hwhole : ∀ w : Arrival6 g src dest, w.p = p → reassemble4 w.out = some ⟨src, dest, p.dataProto, data⟩

private theorem Fragmented6.commutes (h : Fragmented6 p ident b bs l) (hp : Transport6 p)
    (hlen : 20 + p.data.length ≤ 65535) :
    ∃ q, (∀ n, xlatePayload6to4 g p (dataHeader6to4 p src dest n) false = some q) ∧ Commutes6 p l q.data := by
  have hq := fun n =>
    xlatePayload6to4_adjusted src dest n hp.hfull ⟨hp.hproto, fun _ => h.min, fun _ => hp.hgiven⟩ (g := g)
  rw [hp.piece] at hq
  refine ⟨_, hq, fun packets hpackets => ?_, fun w hw => ?_⟩
  · by_cases hbs : bs = []
    · -- one piece
      subst hbs
      obtain ⟨a, rfl⟩ : ∃ a, l = [a] := by
        have hlength := h.hpieces.length_eq
        rw [List.length_map] at hlength
        exact List.length_eq_one_iff.1 hlength
      exact h.reassembled hp hlen (fun a' ha => by rw [List.mem_singleton.1 ha]) hpackets
    · exact h.reassembled hp hlen (fun a ha => h.sentIdent hbs ha) hpackets
  · obtain ⟨ident', hfragmented⟩ := hp.fragmented h.min hw
    exact hfragmented.reassembled hp hlen (fun a ha => by rw [List.mem_singleton.1 ha]) (by rw [List.flatMap_singleton])

end Fragmented

end From6

/-! ### The law -/

/-- **Translation commutes with fragmentation.**  The fragments of a datagram, of which the last one is not empty, are
received as the translated datagram in whatever order they come in and go out, and so is the whole datagram if it is
sent; to IPv4, if the datagram is not too long for it. -/
theorem fragments_commute (g : Gcfg) (hmtu : mtuMin ≤ g.mtu) (hofflink : mtuMin ≤ g.ipv6OfflinkMtu) :
    (∀ (src dest : In6) (p : Pkt4) (b : List Byte) (bs : List (List Byte)) (l : List (Arrival4 g src dest)),
      Transport4 p → Fragmented4 p b bs l → (∀ a ∈ l, a.p.piece.more = false → a.p.data ≠ []) →
      ∃ q, xlatePayload4to6 g p (dataHeader4to6 p src dest) false = some q ∧ Commutes4 p l q.data) ∧
    ∀ (src dest : In4) (p : Pkt6) (ident : BitVec 32) (b : List Byte) (bs : List (List Byte))
      (l : List (Arrival6 g src dest)), Transport6 p → Fragmented6 p ident b bs l → 20 + p.data.length ≤ 65535 →
      ∃ q, (∀ n, xlatePayload6to4 g p (dataHeader6to4 p src dest n) false = some q) ∧ Commutes6 p l q.data :=
  ⟨fun _ _ _ _ _ _ hp h hlast => h.commutes hp hmtu hofflink hlast,
    fun _ _ _ _ _ _ _ hp h hlen => h.commutes hp hlen⟩

/-- A TCP segment with `n` bytes of data. -/
def segmentOf (cksum : BitVec 16) (n : Nat) : List Byte :=
  (TcpHdr.mk 12345 80 1 2 0x50 0x10 0x2000 cksum 0 []).toBytes ++ List.replicate n 0x61

/-- A part of it in an IPv4 packet. -/
def partOf4 (flagsOffset : BitVec 16) (data : List Byte) : List Byte :=
  ((Ip4.mk 0x45 0 (BitVec.ofNat 16 (20 + data.length)) 0xbeef flagsOffset 64 6 0 0xc0000205
    0xc6336407).withCksum .little).toBytes ++ data

/-- The same, parsed. -/
def partPkt4 (flagsOffset : BitVec 16) (data : List Byte) : Pkt4 :=
  ⟨(partOf4 flagsOffset data).take 20, data, 6, none⟩

/-- The packet as it comes in. -/
def partArrival4 (flagsOffset : BitVec 16) (data : List Byte) (h : let p := partPkt4 flagsOffset data
      parseIp4 (partOf4 flagsOffset data) none false = .ok p ∧ ipChecksum .little p.header = 0 ∧
      20 + data.length = p.ip4.length.toNat ∧ 40 + data.length ≤ 1500 ∧ p.ip4.ttl = 64 ∧ p.ip4.src = 0xc0000205 ∧
      p.ip4.dest = 0xc6336407) :
    Arrival4 sampleGcfg 0x0064ff9b0000000000000000c0000205 0x0064ff9b0000000000000000c6336407 where
  d := partOf4 flagsOffset data
  vhdr := none
  offload := false
  ans := frameAns
  p := partPkt4 flagsOffset data
  hgso := rfl
  hparse := h.1
  hfull := rfl
  hvalid := ⟨by rw [h.2.2.2.2.1]; decide, h.2.1, h.2.2.1, fun hicmp => absurd hicmp (show ¬(6 : Byte) = 1 by decide)⟩
  httl := by rw [h.2.2.2.2.1]; decide
  hlocal := by rw [h.2.2.2.2.2.2]; decide
  hfit := fun _ => h.2.2.2.1
  hsrc := by rw [h.2.2.2.2.2.1]; decide
  hdest := by rw [h.2.2.2.2.2.2]; decide
  hsent := frameAns_delivers

/-- A part of it in an IPv6 packet. -/
def partOf6 (frag : Option Ip6Frag) (data : List Byte) : List Byte :=
  packet6 ⟨0x60000000, BitVec.ofNat 16 ((fragBytes frag).length + data.length), if frag.isSome then 44 else 6, 64,
    0x20010db80000000000000000c6336407, 0x0064ff9b0000000000000000c0000205⟩ frag data

/-- The same, parsed. -/
def partPkt6 (frag : Option Ip6Frag) (data : List Byte) : Pkt6 :=
  ⟨(partOf6 frag data).take (40 + (fragBytes frag).length), frag, data, 6, none⟩

/-- The packet as it comes in. -/
def partArrival6 (frag : Option Ip6Frag) (data : List Byte) (h : let p := partPkt6 frag data
      parseIp6 (partOf6 frag data) none false = .ok p ∧ p.headerLen + data.length = p.ip6.payloadLength.toNat ∧
      40 + data.length ≤ 1500 ∧ p.ip6.hopLimit = 64 ∧ p.ip6.src = 0x20010db80000000000000000c6336407 ∧
      p.ip6.dest = 0x0064ff9b0000000000000000c0000205) : Arrival6 sampleGcfg 0xc6336407 0xc0000205 where
  d := partOf6 frag data
  vhdr := none
  offload := false
  ans := frameAns
  p := partPkt6 frag data
  hgso := rfl
  hparse := h.1
  hfull := rfl
  hvalid := ⟨by rw [h.2.2.2.1]; decide, h.2.1, fun hicmp => absurd hicmp (show ¬(6 : Byte) = 58 by decide)⟩
  hhops := by rw [h.2.2.2.1]; decide
  hlocal := by rw [h.2.2.2.2.2]; decide
  hfit := h.2.2.1
  hsrc := by rw [h.2.2.2.2.1]; decide
  hdest := by rw [h.2.2.2.2.2]; decide

/-- A segment of 32 bytes in one packet and in two, and the same from IPv6. -/
def wholePart4 := partArrival4 0 (segmentOf 10932 12) (by decide +kernel)

def firstPart4 := partArrival4 0x2000 ((segmentOf 10932 12).take 24) (by decide +kernel)

def laterPart4 := partArrival4 3 ((segmentOf 10932 12).drop 24) (by decide +kernel)

def wholePart6 := partArrival6 none (segmentOf 64762 12) (by decide +kernel)

def firstPart6 := partArrival6 (some ⟨6, 0, 1, 0x1234beef⟩) ((segmentOf 64762 12).take 24) (by decide +kernel)

def laterPart6 := partArrival6 (some ⟨6, 0, 24, 0x1234beef⟩) ((segmentOf 64762 12).drop 24) (by decide +kernel)

theorem fragments_commute_sample :
    (∃ data, reassemble6 (laterPart4.out ++ firstPart4.out) =
        some ⟨0x0064ff9b0000000000000000c0000205, 0x0064ff9b0000000000000000c6336407, 6, data⟩ ∧
      reassemble6 wholePart4.out =
        some ⟨0x0064ff9b0000000000000000c0000205, 0x0064ff9b0000000000000000c6336407, 6, data⟩) ∧
    ∃ data, reassemble4 (laterPart6.out ++ firstPart6.out) = some ⟨0xc6336407, 0xc0000205, 6, data⟩ ∧
      reassemble4 wholePart6.out = some ⟨0xc6336407, 0xc0000205, 6, data⟩ := by
  have hcommute := fragments_commute sampleGcfg (by decide) (by decide)
  have htcp : ∀ d : List Byte, (6 : Byte) = 17 ∨ (6 : Byte) = 136 → getBe16 d 6 ≠ 0 := fun _ h => absurd h (by decide)
  have hsplit : ∀ d : List Byte, d = d.take 24 ++ [d.drop 24].flatten := fun d => by
    rw [List.flatten_singleton, List.take_append_drop]
  constructor
  · have hfragmented : Fragmented4 wholePart4.p ((segmentOf 10932 12).take 24) [(segmentOf 10932 12).drop 24]
        [laterPart4, firstPart4] :=
      ⟨List.forall_mem_cons.2 ⟨⟨by decide +kernel, by decide +kernel, rfl, by decide +kernel⟩,
        List.forall_mem_singleton.2 ⟨by decide +kernel, by decide +kernel, rfl, by decide +kernel⟩⟩,
        hsplit _, by decide +kernel, by decide +kernel⟩
    obtain ⟨q, -, hq⟩ := hcommute.1 _ _ _ _ _ _ ⟨⟨by decide +kernel, by decide +kernel, rfl⟩, by decide, htcp _⟩
      hfragmented (by decide +kernel)
    exact ⟨q.data, hq.hfragments _ (by decide +kernel), hq.hwhole wholePart4 rfl⟩
  · have hfragmented : Fragmented6 wholePart6.p 0x1234beef ((segmentOf 64762 12).take 24)
        [(segmentOf 64762 12).drop 24] [laterPart6, firstPart6] :=
      ⟨List.forall_mem_cons.2 ⟨⟨by decide +kernel, by decide +kernel, rfl⟩,
        List.forall_mem_singleton.2 ⟨by decide +kernel, by decide +kernel, rfl⟩⟩,
        by decide +kernel, hsplit _, by decide +kernel, by decide +kernel⟩
    obtain ⟨q, -, hq⟩ := hcommute.2 _ _ _ _ _ _ _ ⟨⟨by decide +kernel, by decide +kernel, rfl⟩, by decide, htcp _⟩
      hfragmented (by decide +kernel)
    exact ⟨q.data, hq.hfragments _ (by decide +kernel), hq.hwhole wholePart6 rfl⟩

/-! ### Where it fails -/

/-- A segment of 24 bytes in one packet, and in a fragment that an empty one follows. -/
def wholePart := partArrival4 0 (segmentOf 45121 4) (by decide +kernel)

def onlyPart := partArrival4 0x2000 (segmentOf 45121 4) (by decide +kernel)

def emptyPart := partArrival4 3 [] (by decide +kernel)

/-- Zeros add nothing to a checksum. -/
private theorem sumWords_zeros (n : Nat) : sumWords (List.replicate (2 * n) (0 : Byte)) = 0 := by
  induction n with
  | zero => rfl
  | succ n ih =>
    rw [Nat.mul_succ, List.replicate_succ, List.replicate_succ, sumWords, ih]
    rfl

/-- A configuration with the largest MTU. -/
def longGcfg : Gcfg := { sampleGcfg with mtu := 65535 }

/-- A long part of a segment, as it comes in from IPv6. -/
private theorem exists_longPart (frag : Ip6Frag) {data : List Byte} (hnext : frag.nextHeader = 6)
    (hlen : data.length = 32760) (hoffset : (frag.offsetFlags &&& ip6FMask).toNat ≤ 32760) :
    ∃ a : Arrival6 longGcfg 0xc6336407 0xc0000205, a.p.ip6.src = 0x20010db80000000000000000c6336407 ∧
      a.p.ip6.dest = 0x0064ff9b0000000000000000c0000205 ∧ a.p.dataProto = 6 ∧ a.p.frag = some frag ∧
      a.p.data = data := by
  have hfit : Fitting ⟨0x60000000, 32768, 44, 64, 0x20010db80000000000000000c6336407,
      0x0064ff9b0000000000000000c0000205⟩ (some frag) 6 data := by
    refine ⟨by decide, ?_, rfl, by decide, fun f hf => ?_, fun h => absurd h (by decide)⟩
    · rw [List.length_append, length_fragBytes, hlen, Option.elim_some]
      decide
    · obtain rfl := Option.some.inj hf
      exact ⟨hnext, fun _ => by rw [hlen], by omega⟩
  obtain ⟨p, hparse, hip6, hfrag, hproto, hdata, hvhdr, hsum⟩ :=
    parseIp6_packet6 none hfit (by decide) (by decide)
  refine ⟨⟨_, none, false, frameAns, p, rfl, hparse, by rw [hvhdr]; rfl, ⟨by rw [hip6]; decide, ?_, fun h => ?_⟩,
    by rw [hip6]; decide, by rw [hip6]; decide, ?_, by rw [hip6]; decide, by rw [hip6]; decide⟩, by rw [hip6],
    by rw [hip6], hproto, hfrag, hdata⟩
  · rw [hdata, hip6]
    exact hsum
  · rw [hproto] at h
    exact absurd h (by decide)
  · rw [hdata, hlen]
    decide

/-- The data of a long segment: its first part and its second one. -/
def longFirst : List Byte := segmentOf 17778 0 ++ List.replicate (2 * 16370) 0

def longLater : List Byte := List.replicate (2 * 16380) 0

/-- The segment. -/
def longPkt : Pkt6 where
  header := (Ip6.mk 0x60000000 65520 6 64 0x20010db80000000000000000c6336407
    0x0064ff9b0000000000000000c0000205).toBytes
  frag := none
  data := longFirst ++ longLater
  dataProto := 6
  vhdr := none

private theorem length_longFirst : longFirst.length = 32760 := by
  rw [longFirst, List.length_append, List.length_replicate]
  rfl

private theorem length_longLater : longLater.length = 32760 := List.length_replicate

private theorem length_longPkt : longPkt.data.length = 65520 := by
  rw [longPkt, List.length_append, length_longFirst, length_longLater]

private theorem longPkt_transport : Transport6 longPkt ∧
    ChecksumOk6 longPkt.ip6.src longPkt.ip6.dest longPkt.dataProto longPkt.data := by
  have hlen := length_longPkt
  have hdata : longPkt.data = segmentOf 17778 0 ++ List.replicate (2 * 32750) 0 :=
    (List.append_assoc _ _ _).trans (congrArg (segmentOf 17778 0 ++ ·) List.replicate_append_replicate)
  refine ⟨⟨⟨?_, rfl, rfl⟩, by decide, fun h => absurd h (by decide)⟩, ?_, ?_, fun h => absurd h (by decide), ?_⟩
  · rw [hlen]
    decide
  · rw [show covered longPkt.dataProto longPkt.data = longPkt.data.length from rfl, hlen]
    decide
  · exact Nat.le_refl _
  · rw [show covered longPkt.dataProto longPkt.data = longPkt.data.length from rfl, List.take_length,
      show pseudoLen longPkt.dataProto longPkt.data = longPkt.data.length from rfl, hlen, hdata, ← List.append_assoc]
    unfold Verifies
    rw [sumWords_append (by decide), sumWords_zeros]
    decide +kernel

theorem not_fragments_commute :
    (∃ (p : Pkt4) (b : List Byte) (bs : List (List Byte)) (l : List (Arrival4 sampleGcfg
        0x0064ff9b0000000000000000c0000205 0x0064ff9b0000000000000000c6336407)),
      Transport4 p ∧ ChecksumOk4 p.ip4.src p.ip4.dest p.dataProto p.data ∧ Fragmented4 p b bs l ∧
      (∃ w ∈ [wholePart], w.p = p ∧ (reassemble6 w.out).isSome) ∧ reassemble6 (l.flatMap Arrival4.out) = none) ∧
    ∃ (p : Pkt6) (ident : BitVec 32) (b : List Byte) (bs : List (List Byte))
        (l : List (Arrival6 longGcfg 0xc6336407 0xc0000205)),
      Transport6 p ∧ ChecksumOk6 p.ip6.src p.ip6.dest p.dataProto p.data ∧ Fragmented6 p ident b bs l ∧
      (∀ n, (xlatePayload6to4 longGcfg p (dataHeader6to4 p 0xc6336407 0xc0000205 n) false).isSome) ∧
      reassemble4 (l.flatMap Arrival6.out) = none := by
  constructor
  · refine ⟨wholePart.p, segmentOf 45121 4, [[]], [onlyPart, emptyPart],
      ⟨⟨by decide +kernel, by decide +kernel, rfl⟩, by decide, fun h => absurd h (by decide)⟩,
      ⟨by decide +kernel, by decide +kernel, fun h => absurd h (by decide), by decide +kernel⟩, ⟨?_, ?_, ?_, ?_⟩,
      ⟨wholePart, List.mem_singleton_self _, rfl, by decide +kernel⟩, by decide +kernel⟩
    · exact List.forall_mem_cons.2 ⟨⟨by decide +kernel, by decide +kernel, rfl, by decide +kernel⟩,
        List.forall_mem_singleton.2 ⟨by decide +kernel, by decide +kernel, rfl, by decide +kernel⟩⟩
    · decide +kernel
    · decide +kernel
    · decide +kernel
  · obtain ⟨a, hasrc, hadest, haproto, hafrag, hadata⟩ := exists_longPart ⟨6, 0, 1, 0x1234beef⟩ rfl
      length_longFirst (by decide)
    obtain ⟨a', hasrc', hadest', haproto', hafrag', hadata'⟩ := exists_longPart ⟨6, 0, 32760, 0x1234beef⟩ rfl
      length_longLater (by decide)
    obtain ⟨htransport, hchecksum⟩ := longPkt_transport
    have hfragmented : Fragmented6 longPkt 0x1234beef longFirst [longLater] [a, a'] := by
      refine ⟨List.forall_mem_cons.2 ⟨⟨hasrc, hadest, haproto⟩,
          List.forall_mem_singleton.2 ⟨hasrc', hadest', haproto'⟩⟩,
        List.forall_mem_cons.2 ⟨fun f hf => ?_, List.forall_mem_singleton.2 fun f hf => ?_⟩, ?_, ?_, ?_⟩
      · rw [hafrag] at hf
        rw [← Option.some.inj hf]
      · rw [hafrag'] at hf
        rw [← Option.some.inj hf]
      · rw [List.flatten_singleton]
        rfl
      · rw [length_longFirst]
        decide
      · unfold Pkt6.piece
        rw [List.map_cons, List.map_singleton, hafrag, hadata, hafrag', hadata', pieces, pieces, pieces,
          length_longFirst]
        exact List.Perm.refl _
    refine ⟨longPkt, 0x1234beef, longFirst, [longLater], [a, a'], htransport, hchecksum, hfragmented, fun n => ?_, ?_⟩
    · have hq := xlatePayload6to4_adjusted 0xc6336407 0xc0000205 n htransport.hfull (g := longGcfg)
        ⟨htransport.hproto, fun _ => hfragmented.min, fun _ => htransport.hgiven⟩
      rw [hq]
      rfl
    · have hput := hfragmented.reassemble htransport (fun a'' ha => ?_)
        (fun a ha => hfragmented.sentIdent (List.cons_ne_nil _ _) ha) (List.Perm.refl _)
      · unfold reassemble4
        rw [hput, Option.bind_some]
        dsimp only
        rw [if_neg]
        rw [length_adjusted hfragmented.min, length_longPkt]
        decide
      · revert a'' ha
        refine List.forall_mem_cons.2 ⟨?_, List.forall_mem_singleton.2 ?_⟩
        · rw [hadata, length_longFirst]
          decide
        · rw [hadata', length_longLater]
          decide

end Tayga
