import Tayga.Lib.Cut
import Tayga.ParityLaw
import Tayga.Traces
import Tayga.VnetLaw

/-!
# Identifications of the segments

The software emitters to IPv4 reserve identifications for a whole aggregate and use one for every segment with DF clear,
those of at most 1260 bytes.  The loop writes the packets of the pieces of the payload (`segmentLoop_runs`), these
number the ones with DF clear one after the other (`ident_segmentPackets`), and `gso_df0_segments` is their number
(`gsoDf0Segments_eq`).  So a run uses as many identifications as it reserved (`df0_segments_exact`).
-/

namespace Tayga

open Program Cut

variable {t : List (Sigma PktOp.Ans)}

/-! ### What a run does -/

/-- The identifications an operation reserves. -/
def PktOp.reserves : PktOp → Nat
  | .reserveIp4Ident count => count.toNat
  | _ => 0

/-- The identifications a run reserves. -/
def reserved (t : List (Sigma PktOp.Ans)) : Nat := (t.map fun e => e.1.reserves).sum

/-- The identification of an IPv4 packet. -/
def ident (packet : List Byte) : BitVec 16 := getBe16 packet 4

/-- An IPv4 packet with DF clear. -/
def IsDf0 (packet : List Byte) : Prop := version packet = 4 ∧ getBe16 packet 6 &&& ip4FDf = 0

instance : DecidablePred IsDf0 := fun _ => inferInstanceAs (Decidable (_ ∧ _))

/-- The packets a run writes with DF clear. -/
def df0Packets (t : List (Sigma PktOp.Ans)) : List (List Byte) := (outputs t).filter fun packet => IsDf0 packet

/-- Identifications one after the other. -/
def identBlock (base : BitVec 16) (count : Nat) : List (BitVec 16) :=
  (List.range count).map fun i => base + BitVec.ofNat 16 i

theorem identBlock_succ (base : BitVec 16) (count : Nat) :
    identBlock base (count + 1) = base :: identBlock (base + 1) count := by
  unfold identBlock
  rw [List.range_succ_eq_map, List.map_cons, List.map_map, BitVec.ofNat_eq_ofNat, BitVec.add_zero]
  congr 1
  apply List.map_congr_left
  intro i _
  simp only [Function.comp_apply, Nat.succ_eq_add_one]
  rw [Nat.add_comm, BitVec.ofNat_add, BitVec.add_assoc]

/-- At most 65536 identifications one after the other differ. -/
private theorem identBlock_nodup (base : BitVec 16) {count : Nat} (hcount : count ≤ 65536) :
    (identBlock base count).Nodup := by
  refine List.Nodup.map_on (fun i hi j hj hij => ?_) List.nodup_range
  have hi := List.mem_range.1 hi
  have hj := List.mem_range.1 hj
  have heq := congrArg BitVec.toNat ((BitVec.add_right_inj base).1 hij)
  rw [BitVec.toNat_ofNat, BitVec.toNat_ofNat, Nat.mod_eq_of_lt (by omega), Nat.mod_eq_of_lt (by omega)] at heq
  exact heq

theorem length_identBlock (base : BitVec 16) (count : Nat) : (identBlock base count).length = count := by
  rw [identBlock, List.length_map, List.length_range]

/-! ### The packets of the pieces -/

/-- What a builder makes of the pieces, as far as they fit, with the identification going from one to the next. -/
def segmentPackets (build : SegmentBuilder) : BitVec 16 → List (Piece Byte) → List (List Byte)
  | _, [] => []
  | nextId, s :: rest =>
    match build s.offset s.last nextId s.data with
    | none => []
    | some r => r.1 :: segmentPackets build r.2 rest

private theorem reserved_write (vhdr : Option VnetHdr) (packet : List Byte) (ret : Int) (t : List (Sigma PktOp.Ans)) :
    reserved (⟨.write vhdr packet, ret⟩ :: t) = reserved t := Nat.zero_add _

/-- One turn of the loop: the write fails and ends it, or the loop goes on. -/
private theorem writeSegment_runs {packet : List Byte} {next : PktProg Bool} {r : Bool}
    (h : (.call (.write none packet) fun ret => if ret ≤ 0 then .done false else next : PktProg Bool).Runs t r) :
    (∃ ret : Int, ret ≤ 0 ∧ t = [⟨.write none packet, ret⟩]) ∨
      ∃ (ret : Int) (t' : List (Sigma PktOp.Ans)), t = ⟨.write none packet, ret⟩ :: t' ∧ next.Runs t' r := by
  obtain ⟨ret, t', rfl, h⟩ := h
  dsimp only at h
  by_cases hret : ret ≤ 0
  · rw [if_pos hret] at h
    obtain ⟨rfl, -⟩ := h
    exact .inl ⟨ret, hret, rfl⟩
  · rw [if_neg hret] at h
    exact .inr ⟨ret, t', rfl, h⟩

/-- **The loop of the software emitters** writes the packets of the pieces, all of them unless a write fails, and
reserves nothing. -/
theorem segmentLoop_runs {gsoSize n offset : Nat} {build : SegmentBuilder} {nextId : BitVec 16} {payload : List Byte}
    {r : Bool} (hs : 0 < gsoSize) (hn : payload.length < n)
    (h : (segmentLoop gsoSize build n offset nextId payload).Runs t r) :
    outputs t <+: segmentPackets build nextId (Cut.cut gsoSize offset payload) ∧
    (AllSent t → outputs t = segmentPackets build nextId (Cut.cut gsoSize offset payload)) ∧ reserved t = 0 := by
  induction n generalizing offset nextId payload t with
  | zero => omega
  | succ n ih =>
    unfold segmentLoop at h
    dsimp only at h
    by_cases hle : payload.length ≤ gsoSize
    · -- the last piece
      rw [List.drop_eq_nil_of_le hle, List.take_of_length_le hle, List.isEmpty_nil] at h
      rw [cut_of_le offset hle, segmentPackets]
      dsimp only
      cases hbuild : build offset true nextId payload with
      | none =>
        rw [hbuild] at h
        obtain ⟨rfl, -⟩ := h
        exact ⟨List.prefix_rfl, fun _ => rfl, rfl⟩
      | some packet =>
        rw [hbuild] at h
        rcases writeSegment_runs h with ⟨ret, -, rfl⟩ | ⟨ret, t', rfl, rfl, -⟩
        · exact ⟨List.prefix_rfl, fun _ => rfl, rfl⟩
        · exact ⟨List.prefix_rfl, fun _ => rfl, rfl⟩
    · have hlt : gsoSize < payload.length := Nat.lt_of_not_le hle
      have hrest : (payload.drop gsoSize).isEmpty = false := by
        rw [List.isEmpty_eq_false_iff, ne_eq, List.drop_eq_nil_iff]
        omega
      have hlen : (payload.drop gsoSize).length < n := by
        rw [List.length_drop]
        omega
      rw [hrest, List.length_take, Nat.min_eq_left hlt.le] at h
      rw [cut_of_lt hs offset hlt, segmentPackets]
      dsimp only
      cases hbuild : build offset false nextId (payload.take gsoSize) with
      | none =>
        rw [hbuild] at h
        obtain ⟨rfl, -⟩ := h
        exact ⟨List.prefix_rfl, fun _ => rfl, rfl⟩
      | some packet =>
        rw [hbuild] at h
        rcases writeSegment_runs h with ⟨ret, hret, rfl⟩ | ⟨ret, t', rfl, hloop⟩
        · exact ⟨List.cons_prefix_cons.2 ⟨rfl, List.nil_prefix⟩, fun hsent => absurd hsent.write.1 (by omega), rfl⟩
        · rw [outputs_write, reserved_write]
          obtain ⟨hbegin, hall, hreserved⟩ := ih hlen hloop
          exact ⟨List.cons_prefix_cons.2 ⟨rfl, hbegin⟩, fun hsent => congrArg _ (hall hsent.write.2), hreserved⟩

/-! ### Builders that number their packets -/

/-- A builder of IPv4 packets of `h` bytes and a segment: those of at most 1260 bytes have DF clear and the next
identification, the longer ones have DF set. -/
structure Numbers (build : SegmentBuilder) (h : Nat) : Prop where
  hlong : ∀ offset isLast nextId seg, 65535 < h + seg.length → build offset isLast nextId seg = none
  hdf0 : ∀ offset isLast nextId seg, h + seg.length ≤ 1260 → ∃ packet,
    build offset isLast nextId seg = some (packet, nextId + 1) ∧ IsDf0 packet ∧ ident packet = nextId
  hdf : ∀ offset isLast nextId seg, 1260 < h + seg.length → h + seg.length ≤ 65535 → ∃ packet,
    build offset isLast nextId seg = some (packet, nextId) ∧ version packet = 4 ∧ ¬IsDf0 packet

/-- A piece that becomes a packet with DF clear. -/
def shortPiece (h : Nat) (s : Piece Byte) : Bool := h + s.data.length ≤ 1260

section Numbers

variable {build : SegmentBuilder} {h : Nat} {nextId : BitVec 16} {pieces : List (Piece Byte)}

/-- **The packets with DF clear are numbered one after the other.** -/
theorem ident_segmentPackets (hbuild : Numbers build h) (pieces : List (Piece Byte)) (nextId : BitVec 16) :
    ((segmentPackets build nextId pieces).filter fun packet => IsDf0 packet).map ident <+:
      identBlock nextId (pieces.countP (shortPiece h)) ∧
    ((∀ s ∈ pieces, h + s.data.length ≤ 65535) →
      ((segmentPackets build nextId pieces).filter fun packet => IsDf0 packet).map ident =
        identBlock nextId (pieces.countP (shortPiece h))) := by
  induction pieces generalizing nextId with
  | nil => exact ⟨List.prefix_rfl, fun _ => rfl⟩
  | cons s rest ih =>
    rw [segmentPackets, List.countP_cons]
    by_cases hshort : h + s.data.length ≤ 1260
    · obtain ⟨packet, hpacket, hdf0, hident⟩ := hbuild.hdf0 s.offset s.last nextId s.data hshort
      obtain ⟨hbegin, hall⟩ := ih (nextId + 1)
      rw [hpacket, if_pos (show shortPiece h s = true from decide_eq_true hshort), identBlock_succ]
      dsimp only
      rw [List.filter_cons, if_pos (decide_eq_true hdf0), List.map_cons, hident, List.forall_mem_cons]
      exact ⟨List.cons_prefix_cons.2 ⟨rfl, hbegin⟩, fun hfit => congrArg _ (hall hfit.2)⟩
    rw [if_neg (show ¬shortPiece h s = true from fun h => hshort (of_decide_eq_true h)), Nat.add_zero]
    by_cases hfit : h + s.data.length ≤ 65535
    · obtain ⟨packet, hpacket, -, hdf⟩ := hbuild.hdf s.offset s.last nextId s.data (by omega) hfit
      obtain ⟨hbegin, hall⟩ := ih nextId
      rw [hpacket]
      dsimp only
      rw [List.filter_cons, if_neg fun h => hdf (of_decide_eq_true h), List.forall_mem_cons]
      exact ⟨hbegin, fun hfit => hall hfit.2⟩
    · rw [hbuild.hlong s.offset s.last nextId s.data (by omega)]
      exact ⟨List.nil_prefix, fun h => absurd (h s List.mem_cons_self) hfit⟩

end Numbers

/-- The fields of an IPv4 packet. -/
theorem fields_ip4 (h : Ip4) (rest : List Byte) :
    ident (h.toBytes ++ rest) = h.ident ∧ getBe16 (h.toBytes ++ rest) 6 = h.flagsOffset :=
  ⟨append_be16 _, append_be16 _⟩

/-- Whether DF is clear. -/
theorem isDf0_ip4 {h : Ip4} (hv : h.verIhl = 0x45) (rest : List Byte) :
    IsDf0 (h.toBytes ++ rest) ↔ h.flagsOffset &&& ip4FDf = 0 := by
  rw [IsDf0, (fields_ip4 h rest).2, Ip4.version_toBytes hv]
  exact and_iff_right rfl

section Build

variable {e : Endian} {p : Pkt6} {src4 dst4 : In4}

/-- A segment of at most 1260 bytes. -/
private theorem segmentIp4_short (nextId : BitVec 16) {len : Nat} (hlen : len ≤ 1260) (rest : List Byte) :
    (segmentIp4 e p src4 dst4 nextId len).2 = nextId + 1 ∧
    IsDf0 ((segmentIp4 e p src4 dst4 nextId len).1.toBytes ++ rest) ∧
    ident ((segmentIp4 e p src4 dst4 nextId len).1.toBytes ++ rest) = nextId := by
  have hheader : (segmentIp4 e p src4 dst4 nextId len).1.verIhl = 0x45 := segmentIp4_header.1
  rw [isDf0_ip4 hheader, (fields_ip4 _ rest).1]
  unfold segmentIp4
  rw [if_pos hlen]
  exact ⟨rfl, show (0 : BitVec 16) &&& ip4FDf = 0 by decide, rfl⟩

/-- A longer segment. -/
private theorem segmentIp4_long (nextId : BitVec 16) {len : Nat} (hlen : 1260 < len) (rest : List Byte) :
    (segmentIp4 e p src4 dst4 nextId len).2 = nextId ∧
    version ((segmentIp4 e p src4 dst4 nextId len).1.toBytes ++ rest) = 4 ∧
    ¬IsDf0 ((segmentIp4 e p src4 dst4 nextId len).1.toBytes ++ rest) := by
  have hheader : (segmentIp4 e p src4 dst4 nextId len).1.verIhl = 0x45 := segmentIp4_header.1
  rw [isDf0_ip4 hheader, Ip4.version_toBytes hheader]
  unfold segmentIp4
  rw [if_neg (by omega)]
  exact ⟨rfl, rfl, show ¬ip4FDf &&& ip4FDf = 0 by decide⟩

/-- A builder that puts the header of a segment in front. -/
private theorem Numbers.of_segmentIp4 {build : SegmentBuilder} {h : Nat} (e : Endian) (p : Pkt6) (src4 dst4 : In4)
    (hbuild : ∀ offset isLast nextId seg, ∃ rest, build offset isLast nextId seg =
      if 65535 < h + seg.length then none
      else some ((segmentIp4 e p src4 dst4 nextId (h + seg.length)).1.toBytes ++ rest,
        (segmentIp4 e p src4 dst4 nextId (h + seg.length)).2)) : Numbers build h := by
  refine ⟨fun offset isLast nextId seg hlong => ?_, fun offset isLast nextId seg hshort => ?_,
    fun offset isLast nextId seg hlong hfit => ?_⟩
  all_goals obtain ⟨rest, hrest⟩ := hbuild offset isLast nextId seg
  · rw [hrest, if_pos hlong]
  · obtain ⟨hnext, hdf0⟩ := segmentIp4_short (e := e) (p := p) nextId hshort rest
    rw [hrest, if_neg (by omega), hnext]
    exact ⟨_, rfl, hdf0⟩
  · obtain ⟨hnext, hdf⟩ := segmentIp4_long (e := e) (p := p) nextId hlong rest
    rw [hrest, if_neg (by omega), hnext]
    exact ⟨_, rfl, hdf⟩

theorem buildTcp6to4_numbers (tcp : TcpHdr) (l4Len : Nat) :
    Numbers (buildTcp6to4 e p tcp l4Len src4 dst4) (20 + l4Len) := by
  refine .of_segmentIp4 e p src4 dst4 fun offset isLast nextId seg => ?_
  unfold buildTcp6to4
  dsimp only
  rw [List.append_assoc, ← Nat.add_assoc]
  exact ⟨_, rfl⟩

theorem buildUdp6to4_numbers (udp : UdpHdr) : Numbers (buildUdp6to4 e p udp src4 dst4) (20 + 8) := by
  refine .of_segmentIp4 e p src4 dst4 fun offset isLast nextId seg => ?_
  have hlong : (65535 < 8 + seg.length ∨ 65535 < 20 + (8 + seg.length)) ↔ 65535 < 20 + 8 + seg.length := by omega
  unfold buildUdp6to4
  dsimp only
  rw [List.append_assoc, if_congr hlong rfl rfl, ← Nat.add_assoc]
  exact ⟨_, rfl⟩

end Build

/-! ### The number of segments with DF clear -/

private theorem div_round_up {a b : Nat} (hb : 0 < b) : (a + b - 1) / b = a / b + if a % b ≠ 0 then 1 else 0 := by
  have ha := Nat.div_add_mod a b
  have hlt := Nat.mod_lt a hb
  by_cases h : a % b = 0
  · rw [if_neg (not_not.2 h), Nat.add_zero, show a + b - 1 = b - 1 + b * (a / b) by omega, Nat.add_mul_div_left _ _ hb,
      Nat.div_eq_of_lt (by omega), Nat.zero_add]
  · rw [if_pos h, show a + b - 1 = a % b - 1 + b + b * (a / b) by omega, Nat.add_mul_div_left _ _ hb,
      Nat.add_div_right _ hb, Nat.div_eq_of_lt (by omega)]
    omega

/-- **`gso_df0_segments`** is the number of pieces that become packets with DF clear. -/
theorem gsoDf0Segments_eq {payload : List Byte} {gsoSize h : Nat} (hs : 0 < gsoSize) (hlen : payload.length ≤ 65535)
    (hh : payload ≠ [] ∨ h ≤ 1260) :
    (gsoDf0Segments payload.length gsoSize h).toNat = (Cut.cut gsoSize 0 payload).countP (shortPiece h) := by
  unfold gsoDf0Segments
  by_cases hnil : payload = []
  · have hfit : h ≤ 1260 := hh.resolve_left (not_not.2 hnil)
    subst hnil
    have hone : shortPiece h ⟨0, [], true⟩ = true := decide_eq_true hfit
    rw [List.length_nil, if_pos rfl, cut_of_le 0 (Nat.zero_le _), List.countP_singleton, if_pos hone]
    rfl
  have hpos : payload.length ≠ 0 := fun h => hnil (List.length_eq_zero_iff.1 h)
  have hcount : (Cut.cut gsoSize 0 payload).countP (shortPiece h) = _ :=
    countP_cut hs (fun n => decide (h + n ≤ 1260)) 0 hnil
  have hmod := Nat.mod_lt payload.length hs
  rw [if_neg hpos, hcount]
  simp only [decide_eq_true_eq]
  by_cases hfull : h + gsoSize ≤ 1260
  · have hle : (payload.length + gsoSize - 1) / gsoSize ≤ payload.length := by
      refine Nat.le_of_lt_succ ((Nat.div_lt_iff_lt_mul hs).2 ?_)
      have hmul := Nat.le_mul_of_pos_right payload.length hs
      rw [Nat.succ_mul]
      omega
    have hshort : (payload.length % gsoSize ≠ 0 ∧ h + payload.length % gsoSize ≤ 1260) ↔
        payload.length % gsoSize ≠ 0 := ⟨And.left, fun h => ⟨h, by omega⟩⟩
    rw [if_pos hfull, if_pos hfull, BitVec.toNat_ofNat, Nat.mod_eq_of_lt (by omega), div_round_up hs,
      if_congr hshort rfl rfl]
  · rw [if_neg hfull, if_neg hfull, Nat.zero_add]
    split <;> rfl

/-! ### A run of an emitter -/

/-- The run reserves `count` identifications, gives the packets with DF clear no others, each to one of them, and uses
all of them unless a write fails. -/
structure UsesIdents (count : Nat) (t : List (Sigma PktOp.Ans)) : Prop where
  hreserved : reserved t = count
  hblock : ∃ base, (df0Packets t).map ident <+: identBlock base count
  hexact : AllSent t → (df0Packets t).length = count

/-- So no two of these packets have the same identification. -/
theorem UsesIdents.nodup {count : BitVec 16} (h : UsesIdents count.toNat t) : ((df0Packets t).map ident).Nodup := by
  obtain ⟨base, hblock⟩ := h.hblock
  exact (identBlock_nodup base count.isLt.le).sublist hblock.sublist

private theorem reserved_append (t₁ t₂ : List (Sigma PktOp.Ans)) : reserved (t₁ ++ t₂) = reserved t₁ + reserved t₂ := by
  rw [reserved, List.map_append, List.sum_append, reserved, reserved]

private theorem reserveSegments_runs {count nextId : BitVec 16} (h : (reserveSegments count).Runs t nextId) :
    outputs t = [] ∧ reserved t = count.toNat := by
  unfold reserveSegments at h
  by_cases hzero : count = 0
  · rw [if_pos hzero] at h
    obtain ⟨rfl, -⟩ := h
    rw [hzero]
    exact ⟨rfl, rfl⟩
  · rw [if_neg hzero] at h
    obtain ⟨x, t', rfl, rfl, -⟩ := h
    exact ⟨rfl, Nat.add_zero _⟩

/-- The first piece is the longest. -/
theorem cut_first (gsoSize : Nat) (payload : List Byte) (hs : 0 < gsoSize) : ∃ s rest,
    Cut.cut gsoSize 0 payload = s :: rest ∧ s.data.length = maxSeg payload.length gsoSize := by
  unfold maxSeg
  by_cases hle : payload.length ≤ gsoSize
  · rw [cut_of_le 0 hle, if_neg (Nat.not_lt.2 hle)]
    exact ⟨_, _, rfl, rfl⟩
  · have hlt : gsoSize < payload.length := Nat.lt_of_not_le hle
    rw [cut_of_lt hs 0 hlt, if_pos hlt]
    exact ⟨_, _, rfl, by rw [List.length_take, Nat.min_eq_left hlt.le]⟩

section Sends

variable {payload : List Byte} {gsoSize h : Nat} {build : SegmentBuilder} {r : Bool}

/-- What the emitters do once the addresses are mapped. -/
def sendSegments (build : SegmentBuilder) (gsoSize h : Nat) (payload : List Byte) : PktProg Bool := do
  let nextId ← reserveSegments (gsoDf0Segments payload.length gsoSize h)
  segmentLoop gsoSize build (payload.length + 1) 0 nextId payload

private theorem sendSegments_runs (hs : 0 < gsoSize) (hruns : (sendSegments build gsoSize h payload).Runs t r) :
    reserved t = (gsoDf0Segments payload.length gsoSize h).toNat ∧ ∃ nextId,
      outputs t <+: segmentPackets build nextId (Cut.cut gsoSize 0 payload) ∧
      (AllSent t → outputs t = segmentPackets build nextId (Cut.cut gsoSize 0 payload)) := by
  obtain ⟨t₁, t₂, nextId, rfl, hreserve, hloop⟩ := runs_bind.1 hruns
  obtain ⟨hout, hcount⟩ := reserveSegments_runs hreserve
  obtain ⟨hbegin, hall, hnone⟩ := segmentLoop_runs hs (Nat.lt_succ_self _) hloop
  rw [reserved_append, hcount, hnone, outputs_append, hout, List.nil_append]
  exact ⟨rfl, nextId, hbegin, fun hsent => hall hsent.right⟩

/-- **Segments that fit an IPv4 packet** use the identifications reserved for them. -/
theorem sendSegments_usesIdents (hbuild : Numbers build h) (hs : 0 < gsoSize) (hlen : payload.length ≤ 65535)
    (hh : h ≤ 1260) (hfit : h + maxSeg payload.length gsoSize ≤ 65535)
    (hruns : (sendSegments build gsoSize h payload).Runs t r) :
    UsesIdents (gsoDf0Segments payload.length gsoSize h).toNat t := by
  obtain ⟨hreserved, nextId, hbegin, hall⟩ := sendSegments_runs hs hruns
  obtain ⟨hblock, hexact⟩ := ident_segmentPackets hbuild (Cut.cut gsoSize 0 payload) nextId
  have hcount := gsoDf0Segments_eq hs hlen (.inr hh)
  have hpieces : ∀ s ∈ Cut.cut gsoSize 0 payload, h + s.data.length ≤ 65535 := fun s hmem => by
    have hle := length_data_le hs hmem
    have hle' := length_data_le_length hmem
    unfold maxSeg at hfit
    split at hfit <;> omega
  rw [← hcount] at hblock hexact
  refine ⟨hreserved, ⟨nextId, ((hbegin.filter _).map _).trans hblock⟩, fun hsent => ?_⟩
  have hlength := congrArg List.length (hexact hpieces)
  rw [List.length_map, length_identBlock] at hlength
  rw [df0Packets, hall hsent, hlength]

/-- Segments that do not fit are not sent. -/
private theorem sendSegments_long (hbuild : Numbers build h) (hs : 0 < gsoSize)
    (hlong : 65535 < h + maxSeg payload.length gsoSize) (hruns : (sendSegments build gsoSize h payload).Runs t r) :
    outputs t = [] := by
  obtain ⟨-, nextId, hbegin, -⟩ := sendSegments_runs hs hruns
  obtain ⟨s, rest, hcut, hfirst⟩ := cut_first gsoSize payload hs
  rw [hcut, segmentPackets, hbuild.hlong _ _ _ _ (by omega)] at hbegin
  exact List.prefix_nil.1 hbegin

end Sends

/-! ### The checks in front -/

/-- The operation neither writes an IPv4 packet nor reserves an identification. -/
def Quiet : PktOp → Prop
  | .write _ packet => version packet ≠ 4
  | .reserveIp4Ident _ => False
  | _ => True

private theorem quiet_outputs (h : ∀ e ∈ t, Quiet e.1) {packet : List Byte} (hmem : packet ∈ outputs t) :
    version packet ≠ 4 := by
  obtain ⟨⟨op, x⟩, he, hout⟩ := List.mem_filterMap.1 hmem
  have hquiet := h _ he
  cases op with
  | write vhdr packet' =>
    obtain rfl : packet' = packet := Option.some.inj hout
    exact hquiet
  | _ => cases hout

private theorem quiet_reserved (h : ∀ e ∈ t, Quiet e.1) : reserved t = 0 := by
  refine List.sum_eq_zero fun n hn => ?_
  obtain ⟨⟨op, x⟩, he, rfl⟩ := List.mem_map.1 hn
  have hquiet := h _ he
  cases op with
  | reserveIp4Ident count => exact absurd hquiet id
  | _ => rfl

private theorem quiet_df0Packets (h : ∀ e ∈ t, Quiet e.1) : df0Packets t = [] := by
  refine List.filter_eq_nil_iff.2 fun packet hmem hdf0 => ?_
  exact quiet_outputs h hmem (of_decide_eq_true hdf0).1

section Checks

variable {g : Gcfg} {d : List Byte} {v : VnetHdr}

private theorem hostSendIcmp6Error_quiet {type code : Byte} {word : BitVec 32} {p : Pkt6} :
    (hostSendIcmp6Error g type code word p).Asks Quiet fun _ => True := by
  refine Asks.ite (fun _ => trivial) fun _ => ⟨?_, fun _ => trivial⟩
  dsimp only [Quiet]
  rw [List.append_assoc, Ip6.version_toBytes rfl]
  decide

theorem gsoError6_quiet {type code : Byte} {word : BitVec 32} {p : Pkt6} :
    (gsoError6 g type code word p).Asks Quiet fun _ => True :=
  hostSendIcmp6Error_quiet.bind fun _ _ => trivial

theorem gsoMap6to4WithIcmp_quiet {p : Pkt6} : (gsoMap6to4WithIcmp g p).Asks Quiet fun _ => True :=
  gsoMap6to4WithIcmp_asks (fun _ _ => trivial) fun _ _ _ _ => hostSendIcmp6Error_quiet

/-- Once an aggregate has passed the checks, its segments are sent or nothing happens in IPv4. -/
private theorem afterMap_runs {p : Pkt6} {f : Except Bool (In4 × In4) → PktProg Bool} {send : In4 × In4 → PktProg Bool}
    {r : Bool} (herror : ∀ handled, f (.error handled) = .done handled) (hok : ∀ a, f (.ok a) = send a)
    (hruns : (gsoMap6to4WithIcmp g p >>= f).Runs t r) : (∀ e ∈ t, Quiet e.1) ∨
      ∃ t₁ t₂ a, t = t₁ ++ t₂ ∧ (∀ e ∈ t₁, Quiet e.1) ∧ (send a).Runs t₂ r := by
  obtain ⟨t₁, t₂, a, rfl, hmap, hf⟩ := runs_bind.1 hruns
  have hquiet := (gsoMap6to4WithIcmp_quiet.runs hmap).1
  cases a with
  | error handled =>
    rw [herror] at hf
    obtain ⟨rfl, -⟩ := hf
    rw [List.append_nil]
    exact .inl hquiet
  | ok a =>
    rw [hok] at hf
    exact .inr ⟨t₁, t₂, a, rfl, hquiet, hf⟩

/-- What is known of an aggregate once it has passed the checks. -/
structure Accepted (g : Gcfg) (payload : List Byte) (gsoSize h : Nat) : Prop where
  hs : 0 < gsoSize
  hlen : payload.length ≤ 65535
  hh : h ≤ 1260
  hmtu : ¬(0 < g.mtu ∧ g.mtu < 20 + h + maxSeg payload.length gsoSize)

/-- A run of an emitter: nothing happens in IPv4, or the segments of an accepted aggregate are sent. -/
def EmitterRun (g : Gcfg) (payload : List Byte) (gsoSize h : Nat) (t : List (Sigma PktOp.Ans)) (r : Bool) : Prop :=
  (∀ e ∈ t, Quiet e.1) ∨ ∃ t₁ t₂ build, t = t₁ ++ t₂ ∧ (∀ e ∈ t₁, Quiet e.1) ∧ Numbers build h ∧
    Accepted g payload gsoSize h ∧ (sendSegments build gsoSize h payload).Runs t₂ r

theorem EmitterRun.nothing {payload : List Byte} {gsoSize h : Nat} {prog : PktProg Bool} {r : Bool}
    (hruns : prog.Runs t r) (hprog : prog.Asks Quiet fun _ => True) : EmitterRun g payload gsoSize h t r :=
  .inl (hprog.runs hruns).1

/-- The last checks, and what is sent behind them. -/
private theorem EmitterRun.of_checks {payload : List Byte} {gsoSize h : Nat} {r : Bool} {p : Pkt6}
    {f : Except Bool (In4 × In4) → PktProg Bool} {build : In4 × In4 → SegmentBuilder} (hs : 0 < gsoSize)
    (hlen : payload.length ≤ 65535) (hh : h ≤ 1260) (hbuild : ∀ a, Numbers (build a) h)
    (herror : ∀ handled, f (.error handled) = .done handled)
    (hok : ∀ a, f (.ok a) = sendSegments (build a) gsoSize h payload)
    (hruns : (if 0 < g.mtu ∧ g.mtu < 20 + h + maxSeg payload.length gsoSize then
        gsoError6 g 2 0 (BitVec.ofNat 32 g.mtu) p
      else if p.ip6.hopLimit ≤ 1 then gsoError6 g 3 0 0 p
      else gsoMap6to4WithIcmp g p >>= f).Runs t r) : EmitterRun g payload gsoSize h t r := by
  by_cases hbig : 0 < g.mtu ∧ g.mtu < 20 + h + maxSeg payload.length gsoSize
  · rw [if_pos hbig] at hruns
    exact .nothing hruns gsoError6_quiet
  rw [if_neg hbig] at hruns
  by_cases hhops : p.ip6.hopLimit ≤ 1
  · rw [if_pos hhops] at hruns
    exact .nothing hruns gsoError6_quiet
  rw [if_neg hhops] at hruns
  rcases afterMap_runs herror hok hruns with hquiet | ⟨t₁, t₂, a, rfl, hquiet, hsend⟩
  · exact .inl hquiet
  · exact .inr ⟨t₁, t₂, build a, rfl, hquiet, hbuild a, ⟨hs, hlen, hh, hbig⟩, hsend⟩

/-- The payload of a packet whose length field is right. -/
theorem payload_le {proto : Byte} (hip6 : gsoValidIp6 d proto) (l4Len : Nat) :
    ((d.drop 40).drop l4Len).length ≤ 65535 := by
  have hpayload := (of_decide_eq_true hip6).2.2.1
  have hlt := (Ip6.ofBytes d).payloadLength.isLt
  rw [List.length_drop, List.length_drop]
  omega

private theorem gsoSoftwareSegmentAndSend6to4_runs {r : Bool}
    (hruns : (gsoSoftwareSegmentAndSend6to4 g d (some v)).Runs t r) :
    EmitterRun g ((d.drop 40).drop (tcpHdrLen (d.drop 40))) v.gsoSize.toNat (20 + tcpHdrLen (d.drop 40)) t r := by
  have hmost := tcpHdrLen_le (d.drop 40)
  unfold gsoSoftwareSegmentAndSend6to4 at hruns
  dsimp only at hruns
  rw [show (gsoPkt6 d v 6).data = d.drop 40 from rfl] at hruns
  split at hruns
  · exact .nothing hruns trivial
  next hheader =>
  split at hruns
  · exact .nothing hruns trivial
  next hip =>
  split at hruns
  · exact .nothing hruns trivial
  split at hruns
  · exact .nothing hruns trivial
  have hvalid : ¬gsoValidateHeader d.length v ≤ 0 := fun h => hheader (.inr h)
  have hip6 : gsoValidIp6 d 6 := by simpa using (not_or.1 hip).2
  rw [effectiveGsoSize_eq hvalid, show 40 + tcpHdrLen (d.drop 40) = 20 + (20 + tcpHdrLen (d.drop 40)) by omega] at hruns
  exact .of_checks (Nat.pos_of_ne_zero fun h => gsoSize_ne_zero hvalid (BitVec.eq_of_toNat_eq h)) (payload_le hip6 _)
    (by omega) (fun a => buildTcp6to4_numbers _ _) (fun _ => rfl) (fun _ => rfl) hruns

private theorem gsoSoftwareSegmentAndSendUdp6to4_runs {r : Bool}
    (hruns : (gsoSoftwareSegmentAndSendUdp6to4 g d (some v)).Runs t r) :
    EmitterRun g ((d.drop 40).drop 8) v.gsoSize.toNat (20 + 8) t r := by
  unfold gsoSoftwareSegmentAndSendUdp6to4 at hruns
  dsimp only at hruns
  rw [show (gsoPkt6 d v 17).data = d.drop 40 from rfl] at hruns
  split at hruns
  · exact .nothing hruns trivial
  next hheader =>
  split at hruns
  · exact .nothing hruns trivial
  next hip =>
  split at hruns
  · exact .nothing hruns trivial
  have hvalid : ¬gsoValidateHeader d.length v ≤ 0 := fun h => hheader (.inr h)
  have hip6 : gsoValidIp6 d 17 := by simpa using (not_or.1 (not_or.1 hip).2).2
  rw [effectiveGsoSize_eq hvalid] at hruns
  exact .of_checks (Nat.pos_of_ne_zero fun h => gsoSize_ne_zero hvalid (BitVec.eq_of_toNat_eq h)) (payload_le hip6 _)
    (by decide) (fun a => buildUdp6to4_numbers _) (fun _ => rfl) (fun _ => rfl) hruns

theorem UsesIdents.after {count : Nat} {t₁ t₂ : List (Sigma PktOp.Ans)} (hquiet : ∀ e ∈ t₁, Quiet e.1)
    (h : UsesIdents count t₂) : UsesIdents count (t₁ ++ t₂) := by
  have hpackets : df0Packets (t₁ ++ t₂) = df0Packets t₂ := by
    rw [df0Packets, outputs_append, List.filter_append]
    exact congrArg (· ++ df0Packets t₂) (quiet_df0Packets hquiet)
  refine ⟨?_, ?_, fun hsent => ?_⟩
  · rw [reserved_append, quiet_reserved hquiet, Nat.zero_add, h.hreserved]
  · rw [hpackets]
    exact h.hblock
  · rw [hpackets]
    exact h.hexact hsent.right

/-- The segments were sent: an IPv4 packet was written.  With the MTU of a device, identifications were reserved. -/
def SendsSegments (g : Gcfg) (t : List (Sigma PktOp.Ans)) : Prop :=
  (∃ packet ∈ outputs t, version packet = 4) ∨ (mtuMin ≤ g.mtu ∧ g.mtu < 65536 ∧ reserved t ≠ 0)

private theorem EmitterRun.usesIdents {payload : List Byte} {gsoSize h : Nat} {r : Bool}
    (hruns : EmitterRun g payload gsoSize h t r) (hsends : SendsSegments g t) :
    UsesIdents (gsoDf0Segments payload.length gsoSize h).toNat t := by
  rcases hruns with hquiet | ⟨t₁, t₂, build, rfl, hquiet, hbuild, ⟨hs, hlen, hh, hmtu⟩, hsend⟩
  · rcases hsends with ⟨packet, hmem, hversion⟩ | ⟨-, -, hreserved⟩
    · exact absurd hversion (quiet_outputs hquiet hmem)
    · exact absurd (quiet_reserved hquiet) hreserved
  by_cases hfit : h + maxSeg payload.length gsoSize ≤ 65535
  · exact (sendSegments_usesIdents hbuild hs hlen hh hfit hsend).after hquiet
  rcases hsends with ⟨packet, hmem, hversion⟩ | ⟨hmin, hmax, -⟩
  · rw [outputs_append, sendSegments_long hbuild hs (by omega) hsend, List.append_nil] at hmem
    exact absurd hversion (quiet_outputs hquiet hmem)
  · unfold mtuMin at hmin
    omega

end Checks

/-- The length of the transport header of an aggregate from IPv6. -/
def GsoEntry.l4Len6 (entry : GsoEntry) (d : List Byte) : Nat :=
  match entry with
  | tcp | tcpSoftware => tcpHdrLen (d.drop 40)
  | udp | udpSoftware => 8

private theorem emitterRun6 {entry : GsoEntry} (hentry : entry = .tcpSoftware ∨ entry = .udpSoftware) {g : Gcfg}
    {d : List Byte} {v : VnetHdr} {r : Bool} (hruns : (entry.run6 g d (some v)).Runs t r) :
    EmitterRun g ((d.drop 40).drop (entry.l4Len6 d)) v.gsoSize.toNat (20 + entry.l4Len6 d) t r := by
  rcases hentry with rfl | rfl
  · exact gsoSoftwareSegmentAndSend6to4_runs hruns
  · exact gsoSoftwareSegmentAndSendUdp6to4_runs hruns

/-- **The identifications reserved are those used.**  `gso_df0_segments` is the number of segments that become packets
of at most 1260 bytes, for every payload, every segment size and every header that leaves an empty payload below the
limit.  A run of a software emitter that sends its segments reserves that number, and writes as many packets with DF
clear, each with one of these identifications. -/
theorem df0_segments_exact :
    (∀ (payload : List Byte) (gsoSize h : Nat), 0 < gsoSize → payload.length ≤ 65535 → (payload ≠ [] ∨ h ≤ 1260) →
      (gsoDf0Segments payload.length gsoSize h).toNat = (Cut.cut gsoSize 0 payload).countP (shortPiece h)) ∧
    ∀ (entry : GsoEntry) (g : Gcfg) (d : List Byte) (v : VnetHdr) (t : List (Sigma PktOp.Ans)) (r : Bool),
      entry = .tcpSoftware ∨ entry = .udpSoftware → (entry.run6 g d (some v)).Runs t r → SendsSegments g t →
      UsesIdents (gsoDf0Segments ((d.drop 40).drop (entry.l4Len6 d)).length v.gsoSize.toNat
        (20 + entry.l4Len6 d)).toNat t ∧ ((df0Packets t).map ident).Nodup := by
  refine ⟨fun _ _ _ => gsoDf0Segments_eq, fun entry g d v t r hentry hruns hsends => ?_⟩
  have huses := (emitterRun6 hentry hruns).usesIdents hsends
  exact ⟨huses, huses.nodup⟩

/-- Two segments of eight bytes to 192.0.2.1. -/
def udpSegments6 : List Byte := udpDatagram6 64 0x0064ff9b0000000000000000c0000201 16

/-- What becomes of them. -/
def udpSegments6Run : List (Sigma PktOp.Ans) :=
  ((GsoEntry.udpSoftware.run6 sampleGcfg udpSegments6 (some udpGso6)).exec (fun op _ => (sampleAns op, ())) ()).1

theorem df0_segments_exact_pair :
    (gsoDf0Segments (List.replicate 16 (0 : Byte)).length 8 28).toNat =
      (Cut.cut 8 0 (List.replicate 16 (0 : Byte))).countP (shortPiece 28) ∧
    UsesIdents (gsoDf0Segments ((udpSegments6.drop 40).drop (GsoEntry.udpSoftware.l4Len6 udpSegments6)).length
      udpGso6.gsoSize.toNat (20 + GsoEntry.udpSoftware.l4Len6 udpSegments6)).toNat udpSegments6Run ∧
    ((df0Packets udpSegments6Run).map ident).Nodup ∧
    (df0Packets udpSegments6Run).map ident = [0xb00b, 0xb00c] :=
  have h := df0_segments_exact.2 .udpSoftware sampleGcfg udpSegments6 udpGso6 udpSegments6Run _ (.inr rfl)
    (runs_exec _ _ _) (.inl (by decide +kernel))
  ⟨df0_segments_exact.1 _ _ _ (by decide) (by decide) (.inl (by decide)), h.1, h.2, by decide +kernel⟩

end Tayga
