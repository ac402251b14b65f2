import Tayga.Lib.Tickets
import Tayga.SegmentLaw

/-!
# Identifications across the workers

Workers translate packets to IPv4 side by side and draw identifications from one counter.  Whatever a packet becomes, it
uses only identifications it has drawn itself, in this order and each once (`handleIp6_spends`), the segments that the
device cuts counted.  So in every interleaving two datagrams with DF clear have the same identification only if 65536
others were drawn in between (`idents_unique`).
-/

namespace Tayga

open Program Cut

variable {g : Gcfg} {d : List Byte} {v : VnetHdr} {vhdr : Option VnetHdr} {entry : GsoEntry} {l4Len : Nat}
  {rest : List (BitVec 16)}

/-! ### Identifications as tickets -/

/-- The identifications of the datagrams with DF clear that go out for a packet. -/
def wireIdents (device : Device) (vhdr : Option VnetHdr) (packet : List Byte) : List (BitVec 16) :=
  ((device vhdr packet).filter fun packet => IsDf0 packet).map ident

/-- A reservation hands identifications over, and a write uses them. -/
def identTickets (device : Device) : Tickets PktOp PktOp.Ans (BitVec 16) where
  handed op x :=
    match op, x with
    | .reserveIp4Ident count, x => identBlock x count.toNat
    | _, _ => []
  used
    | .write vhdr packet => wireIdents device vhdr packet
    | _ => []

/-- The operation has to do with no identifications. -/
def Silent (op : PktOp) : Prop := (identTickets onWire).used op = [] ∧ ∀ x, (identTickets onWire).handed op x = []

/-- A packet that is not IPv4. -/
private theorem wireIdents_version {packet : List Byte} (h : version packet ≠ 4) :
    wireIdents onWire none packet = [] := by
  unfold wireIdents onWire
  rw [List.filter_cons, if_neg fun hdf0 => h (of_decide_eq_true hdf0).1]
  rfl

/-- What is written behind the first eight bytes leaves the version, the identification and DF. -/
private theorem isDf0_put {packet s : List Byte} {i : Nat} (hi : 8 ≤ i) (hlen : 8 ≤ packet.length) :
    (IsDf0 (put packet i s) ↔ IsDf0 packet) ∧ ident (put packet i s) = ident packet := by
  have hbyte : ∀ k, k < 8 → getU8 (put packet i s) k = getU8 packet k := fun k hk => by
    have htake : k < (packet.take i).length := by
      rw [List.length_take]
      omega
    unfold put
    rw [List.append_assoc, getU8_append_left htake, getU8_take (by omega)]
  have hfirst : version (put packet i s) = version packet := by
    unfold version
    rw [hbyte 0 (by decide)]
  have hword : ∀ k, k + 1 < 8 → getBe16 (put packet i s) k = getBe16 packet k := fun k hk => by
    unfold getBe16
    rw [hbyte k (by omega), hbyte (k + 1) hk]
  unfold IsDf0 ident
  rw [hfirst, hword 6 (by decide), hword 4 (by decide)]
  exact ⟨Iff.rfl, rfl⟩

/-- A packet that goes out as it is uses its identification. -/
private theorem wireIdents_whole {w : Option VnetHdr} {h : Ip4} {data : List Byte} (hw : ∀ v, w = some v →
    v.gso = vnetGsoNone ∧ 8 ≤ v.csumStart.toNat + v.csumOffset.toNat ∧ ChecksumFits v (h.toBytes ++ data))
    (hv : h.verIhl = 0x45) :
    wireIdents onWire w (h.toBytes ++ data) = if h.flagsOffset &&& ip4FDf = 0 then [h.ident] else [] := by
  have hident := (fields_ip4 h data).1
  have hdf0 := isDf0_ip4 hv data
  have hone : ∃ packet, onWire w (h.toBytes ++ data) = [packet] ∧
      (IsDf0 packet ↔ IsDf0 (h.toBytes ++ data)) ∧ ident packet = ident (h.toBytes ++ data) := by
    have hlen : 8 ≤ (h.toBytes ++ data).length := by
      rw [List.length_append, length_ip4]
      omega
    cases w with
    | none => exact ⟨_, rfl, Iff.rfl, rfl⟩
    | some v =>
      obtain ⟨hgso, hplace, hfits⟩ := hw v rfl
      refine ⟨completed v (h.toBytes ++ data), by rw [onWire, if_pos hgso, if_pos hfits], ?_⟩
      unfold completed
      split
      · exact isDf0_put hplace hlen
      · exact ⟨Iff.rfl, rfl⟩
  obtain ⟨packet, hpacket, hdf, hid⟩ := hone
  unfold wireIdents
  rw [hpacket]
  by_cases hclear : h.flagsOffset &&& ip4FDf = 0
  · rw [List.filter_cons, if_pos (decide_eq_true (hdf.2 (hdf0.2 hclear))), if_pos hclear, List.map_cons, hid, hident]
    rfl
  · rw [List.filter_cons, if_neg fun h => hclear (hdf0.1 (hdf.1 (of_decide_eq_true h))), if_neg hclear]
    rfl

/-- A packet that is no aggregate uses its identification, if it goes out. -/
private theorem wireIdents_scalar {w : Option VnetHdr} (hw : ∀ v, w = some v → v.gso = vnetGsoNone ∧
    8 ≤ v.csumStart.toNat + v.csumOffset.toNat) {h : Ip4} (hv : h.verIhl = 0x45) (data : List Byte) :
    List.Sublist (wireIdents onWire w (h.toBytes ++ data))
      (if h.flagsOffset &&& ip4FDf = 0 then [h.ident] else []) := by
  by_cases hfits : ∀ v, w = some v → ChecksumFits v (h.toBytes ++ data)
  · rw [wireIdents_whole (fun v hv => ⟨(hw v hv).1, (hw v hv).2, hfits v hv⟩) hv]
  · rw [not_forall] at hfits
    obtain ⟨v, hfits⟩ := hfits
    rw [Classical.not_imp] at hfits
    obtain ⟨rfl, hfits⟩ := hfits
    rw [wireIdents, onWire, if_pos (hw v rfl).1, if_neg hfits]
    exact List.nil_sublist _

/-- Segments with identifications one apart. -/
private theorem idents_numbered {segment : BitVec 16 → Piece Byte → List Byte}
    (h : ∀ i s, IsDf0 (segment i s) ∧ ident (segment i s) = i) (base : BitVec 16) (pieces : List (Piece Byte)) :
    ((numberedSegments segment 1 base pieces).filter fun packet => IsDf0 packet).map ident =
      identBlock base pieces.length := by
  induction pieces generalizing base with
  | nil => rfl
  | cons s rest ih =>
    rw [numberedSegments, List.filter_cons, if_pos (decide_eq_true (h base s).1), List.map_cons, (h base s).2, ih,
      List.length_cons, identBlock_succ]

/-- Segments with DF set use none. -/
private theorem idents_df {segment : BitVec 16 → Piece Byte → List Byte} (h : ∀ i s, ¬IsDf0 (segment i s))
    (step base : BitVec 16) (pieces : List (Piece Byte)) :
    ((numberedSegments segment step base pieces).filter fun packet => IsDf0 packet).map ident = [] := by
  induction pieces generalizing base with
  | nil => rfl
  | cons s rest ih =>
    rw [numberedSegments, List.filter_cons, if_neg fun hdf0 => h base s (of_decide_eq_true hdf0), ih]

/-! ### Packets that are no aggregates -/

private theorem silent_of_none {packet : List Byte} (h : version packet ≠ 4) : Silent (.write none packet) :=
  ⟨wireIdents_version h, fun _ => rfl⟩

private theorem statsDrop_silent {len : Nat} : (statsDrop len).Asks Silent fun _ => True :=
  ⟨⟨rfl, fun _ => rfl⟩, fun _ => trivial⟩

private theorem hostSendIcmp6_silent {e : Endian} {tc : Byte} {src dest : In6} {icmp : Icmp} {data : List Byte} :
    (hostSendIcmp6 e tc src dest icmp data).Asks Silent fun _ => True := by
  refine ⟨silent_of_none ?_, fun _ => trivial⟩
  rw [List.append_assoc, Ip6.version_toBytes rfl]
  decide

private theorem hostSendIcmp6Error_silent {type code : Byte} {word : BitVec 32} {p : Pkt6} :
    (hostSendIcmp6Error g type code word p).Asks Silent fun _ => True :=
  Asks.ite (fun _ => trivial) fun _ => hostSendIcmp6_silent

private theorem hostHandleIcmp6_silent {p : Pkt6} : (hostHandleIcmp6 g p).Asks Silent fun _ => True :=
  Asks.ite (fun _ => hostSendIcmp6_silent) fun _ => trivial

private theorem mapEm6to4_silent {p : Pkt6} : (mapEm6to4 p).Asks Silent fun _ => True :=
  mapEm6to4_asks fun _ _ => ⟨rfl, fun _ => rfl⟩

/-- Nothing is used, whatever is left. -/
def AnyRest {α : Type} (_ : List (BitVec 16)) (_ : α) : Prop := True

private theorem silent_spends {α : Type} {prog : PktProg α} (h : prog.Asks Silent fun _ => True) :
    Spends (identTickets onWire) rest prog AnyRest := (Spends.of_asks h).mono fun _ _ _ => trivial

/-- A program behind one that has to do with no identifications. -/
private theorem after_silent {α β : Type} {prog : PktProg α} (h : prog.Asks Silent fun _ => True) {f : α → PktProg β}
    (hf : ∀ a, Spends (identTickets onWire) rest (f a) AnyRest) :
    Spends (identTickets onWire) rest (prog >>= f) AnyRest := by
  refine Spends.bind ((Spends.of_asks h).mono fun kept a hkept => ?_)
  rw [hkept.1]
  exact hf a

/-- One more operation. -/
private theorem ask_spends {α : Type} {op : PktOp} {next : op.Ans → PktProg α} (h : Silent op)
    (hnext : ∀ x, Spends (identTickets onWire) rest (next x) AnyRest) :
    Spends (identTickets onWire) rest (.call op next) AnyRest := by
  refine Spends.call h.1 fun x => ?_
  rw [h.2 x, List.append_nil]
  exact hnext x

private theorem identBlock_one (x : BitVec 16) : identBlock x 1 = [x] := congrArg (· :: []) (BitVec.add_zero x)

/-- **The header of a packet without a fragment header** has an identification from the counter, if DF is clear. -/
theorem xlateHeader6to4_spends {p : Pkt6} (hfrag : p.frag = none) (src dest : In4) (len : Nat) :
    Spends (identTickets onWire) rest (xlateHeader6to4 p src dest len) fun kept h => h.verIhl = 0x45 ∧
      List.Sublist (if h.flagsOffset &&& ip4FDf = 0 then [h.ident] else []) kept := by
  unfold xlateHeader6to4 xlateIdent6to4
  rw [hfrag]
  dsimp only
  by_cases hshort : 20 + len ≤ 1260
  · rw [if_pos hshort]
    refine Spends.call rfl fun x => ⟨rfl, ?_⟩
    rw [if_pos (show (0 : BitVec 16) &&& ip4FDf = 0 by decide)]
    show List.Sublist [x] (rest ++ identBlock x 1)
    rw [identBlock_one]
    exact List.sublist_append_right rest [x]
  · rw [if_neg hshort]
    refine ⟨rfl, ?_⟩
    rw [if_neg (show ¬ip4FDf &&& ip4FDf = 0 by decide)]
    exact List.nil_sublist _

/-- A quoted packet has an identification that nothing uses. -/
private theorem xlateHeader6to4_idle {p : Pkt6} (src dest : In4) (len : Nat) :
    Spends (identTickets onWire) rest (xlateHeader6to4 p src dest len) AnyRest := by
  unfold xlateHeader6to4 xlateIdent6to4
  split
  · trivial
  · by_cases hshort : 20 + len ≤ 1260
    · rw [if_pos hshort]
      exact Spends.call rfl fun _ => trivial
    · rw [if_neg hshort]
      trivial

private theorem emit_spends {w : Option VnetHdr} (hw : ∀ v, w = some v → v.gso = vnetGsoNone ∧
    8 ≤ v.csumStart.toNat + v.csumOffset.toNat) {h : Ip4} (hv : h.verIhl = 0x45) (data : List Byte)
    (hrest : List.Sublist (if h.flagsOffset &&& ip4FDf = 0 then [h.ident] else []) rest) :
    Spends (identTickets onWire) rest (emit w (h.toBytes ++ data)) AnyRest := by
  refine ⟨[], ?_, fun _ => trivial⟩
  show List.Sublist (wireIdents onWire w (h.toBytes ++ data) ++ []) rest
  rw [List.append_nil]
  exact (wireIdents_scalar hw hv data).trans hrest

private theorem outVhdr_scalar {proto : Byte} {w : Option VnetHdr} {v : VnetHdr} (h : outVhdr proto 20 w = some v) :
    v.gso = vnetGsoNone ∧ 8 ≤ v.csumStart.toNat + v.csumOffset.toNat := by
  unfold outVhdr at h
  split at h
  · obtain ⟨v, -, rfl⟩ := Option.map_eq_some_iff.1 h
    refine ⟨show vnetGsoNone &&& ~~~vnetGsoEcn = vnetGsoNone by decide, ?_⟩
    show 8 ≤ 20 + _
    omega
  · cases h

private theorem xlate6to4Emit_spends {p : Pkt6} (hfrag : p.frag = none) (src dest : In4) :
    Spends (identTickets onWire) rest (xlate6to4Emit g p src dest) AnyRest := by
  refine Spends.bind ((xlateHeader6to4_spends hfrag src dest p.data.length).mono fun kept h hh => ?_)
  dsimp only
  split
  · exact silent_spends statsDrop_silent
  · exact emit_spends (h := Ip4.withCksum g.endian { h with ttl := h.ttl - 1 }) (fun v hv => outVhdr_scalar hv) hh.1 _
      hh.2

private theorem xlate6to4Data_spends {p : Pkt6} (hfrag : p.frag = none) :
    Spends (identTickets onWire) rest (xlate6to4Data g p) AnyRest := by
  have hreject : ∀ {code : Byte}, Spends (identTickets onWire) rest
      (statsDrop p.data.length >>= fun _ => hostSendIcmp6Error g 1 code 0 p) AnyRest :=
    after_silent statsDrop_silent fun _ => silent_spends hostSendIcmp6Error_silent
  refine ask_spends ⟨rfl, fun _ => rfl⟩ fun r => ?_
  rcases r with (_ | _ | _) | dest
  · exact hreject
  · exact silent_spends statsDrop_silent
  · exact silent_spends statsDrop_silent
  refine ask_spends ⟨rfl, fun _ => rfl⟩ fun r => ?_
  rcases r with (_ | _ | _) | src
  · exact hreject
  · exact silent_spends statsDrop_silent
  · exact silent_spends statsDrop_silent
  exact Spends.ite (fun _ => silent_spends hostSendIcmp6Error_silent) fun _ => xlate6to4Emit_spends hfrag src dest

private theorem xlate6to4IcmpErrorEmit_spends {p : Pkt6} (hfrag : p.frag = none) {icmp : Icmp}
    {emHeader emData : List Byte} :
    Spends (identTickets onWire) rest (xlate6to4IcmpErrorEmit g p icmp emHeader emData) AnyRest := by
  refine ask_spends ⟨rfl, fun _ => rfl⟩ fun r => ask_spends ⟨rfl, fun _ => rfl⟩ fun r' => ?_
  cases r' with
  | error e => trivial
  | ok dest =>
    refine Spends.bind ((xlateHeader6to4_spends hfrag _ dest _).mono fun kept h hh => ?_)
    dsimp only
    rw [List.append_assoc, List.append_assoc]
    exact emit_spends (h := Ip4.withCksum g.endian { h with ttl := h.ttl - 1 })
      (fun v hv => absurd hv (Option.some_ne_none v).symm) hh.1 _ hh.2

private theorem xlate6to4IcmpError_spends {p : Pkt6} (hfrag : p.frag = none) :
    Spends (identTickets onWire) rest (xlate6to4IcmpError g p) AnyRest := by
  rw [xlate6to4IcmpError_eq]
  cases quote6 p with
  | none => trivial
  | some em =>
    show Spends (identTickets onWire) rest (xlate6to4Quoted g p em) AnyRest
    unfold xlate6to4Quoted
    split
    · trivial
    · refine after_silent mapEm6to4_silent fun r => ?_
      rcases r with _ | ⟨src, dest⟩
      · trivial
      refine Spends.bind ((xlateHeader6to4_idle src dest _).mono fun kept h _ => ?_)
      dsimp only
      split
      · trivial
      · exact xlate6to4IcmpErrorEmit_spends hfrag

/-- **A packet that is no aggregate and no fragment** uses what it has drawn. -/
theorem handlePlain6_spends (hfrag : ∀ p, parseIp6 d vhdr false = .ok p → p.frag = none) :
    Spends (identTickets onWire) rest (handlePlain6 g d vhdr) AnyRest := by
  unfold handlePlain6
  cases hparse : parseIp6 d vhdr false with
  | drop len => exact silent_spends statsDrop_silent
  | routing ptr p =>
    exact after_silent hostSendIcmp6Error_silent fun _ => silent_spends statsDrop_silent
  | ok p =>
    have hfrag := hfrag p hparse
    exact .ite (fun _ => silent_spends statsDrop_silent) fun _ =>
      .ite (fun _ => silent_spends statsDrop_silent) fun _ =>
      .ite (fun _ => .ite (fun _ => silent_spends hostHandleIcmp6_silent) fun _ =>
        silent_spends hostSendIcmp6Error_silent) fun _ =>
      .ite (fun _ => silent_spends hostSendIcmp6Error_silent) fun _ =>
      .ite (fun _ => xlate6to4Data_spends hfrag) fun _ => xlate6to4IcmpError_spends hfrag

/-! ### Aggregates -/

/-- A write that went out. -/
def Went (op : PktOp) (x : op.Ans) : Prop := Sent ⟨op, x⟩

section Aggregates

variable {build : SegmentBuilder} {h n offset : Nat} {nextId : BitVec 16} {payload : List Byte}

/-- A write that uses the tickets in front; where it fails, what is behind has to do with no tickets. -/
private theorem write_usesUp {α : Type} {w : Option VnetHdr} {packet : List Byte} {next : Int → PktProg α}
    (kept : List (BitVec 16)) (h : wireIdents onWire w packet ++ kept = rest)
    (hnext : ∀ ret, 0 < ret → UsesUp (identTickets onWire) Went kept (next ret))
    (hfail : ∀ ret, ¬0 < ret → Spends (identTickets onWire) kept (next ret) AnyRest) :
    UsesUp (identTickets onWire) Went rest (.call (.write w packet) next) := by
  refine ⟨kept, h, fun ret => ?_⟩
  show (_ → UsesUp (identTickets onWire) Went (kept ++ []) (next ret)) ∧
    (_ → Spends (identTickets onWire) (kept ++ []) (next ret) AnyRest)
  rw [List.append_nil]
  exact ⟨hnext ret, hfail ret⟩

/-- What a packet without a virtio header uses. -/
private theorem wireIdents_none (packet : List Byte) :
    wireIdents onWire none packet = if IsDf0 packet then [ident packet] else [] := by
  unfold wireIdents onWire
  rw [List.filter_cons]
  by_cases hdf0 : IsDf0 packet
  · rw [if_pos hdf0, if_pos (decide_eq_true hdf0)]
    rfl
  · rw [if_neg hdf0, if_neg fun h => hdf0 (of_decide_eq_true h)]
    rfl

/-- The packet of one piece, and what is left for the pieces behind it. -/
private theorem Numbers.piece_usesUp (hbuild : Numbers build h) {s : Piece Byte} (hfit : h + s.data.length ≤ 65535)
    {c : Nat}
    {next : BitVec 16 → PktProg Bool} (hnext : ∀ nextId, UsesUp (identTickets onWire) Went (identBlock nextId c)
      (next nextId)) :
    UsesUp (identTickets onWire) Went (identBlock nextId (c + if shortPiece h s then 1 else 0))
      (match build s.offset s.last nextId s.data with
      | none => .done false
      | some (packet, nextId) =>
        .call (.write none packet) fun ret => if ret ≤ 0 then .done false else next nextId) := by
  have hwrite : ∀ {packet : List Byte} {nextId' : BitVec 16} {rest : List (BitVec 16)},
      wireIdents onWire none packet ++ identBlock nextId' c = rest → UsesUp (identTickets onWire) Went rest
        (.call (.write none packet) fun ret => if ret ≤ 0 then .done false else next nextId') := by
    intro packet nextId' rest hrest
    refine write_usesUp _ hrest (fun ret hret => ?_) fun ret hret => ?_
    · rw [if_neg (Int.not_le.2 hret)]
      exact hnext nextId'
    · rw [if_pos (Int.not_lt.1 hret)]
      trivial
  by_cases hshort : h + s.data.length ≤ 1260
  · obtain ⟨packet, hpacket, hdf0, hident⟩ := hbuild.hdf0 s.offset s.last nextId s.data hshort
    rw [hpacket, if_pos (show shortPiece h s = true from decide_eq_true hshort), identBlock_succ]
    refine hwrite ?_
    rw [wireIdents_none, if_pos hdf0, hident]
    rfl
  · obtain ⟨packet, hpacket, -, hdf⟩ := hbuild.hdf s.offset s.last nextId s.data (by omega) hfit
    rw [hpacket, if_neg (show ¬shortPiece h s = true from fun h => hshort (of_decide_eq_true h)), Nat.add_zero]
    refine hwrite ?_
    rw [wireIdents_none, if_neg hdf]
    rfl

/-- **The loop of the software emitters** uses an identification for each short segment. -/
theorem segmentLoop_usesUp (hbuild : Numbers build h) {gsoSize : Nat} (hs : 0 < gsoSize) (hn : payload.length < n)
    (hfit : ∀ s ∈ Cut.cut gsoSize offset payload, h + s.data.length ≤ 65535) :
    UsesUp (identTickets onWire) Went (identBlock nextId ((Cut.cut gsoSize offset payload).countP (shortPiece h)))
      (segmentLoop gsoSize build n offset nextId payload) := by
  induction n generalizing offset nextId payload with
  | zero => omega
  | succ n ih =>
    unfold segmentLoop
    dsimp only
    by_cases hle : payload.length ≤ gsoSize
    · -- the last piece
      rw [cut_of_le offset hle] at hfit ⊢
      rw [List.countP_cons, List.countP_nil, List.drop_eq_nil_of_le hle, List.take_of_length_le hle, List.isEmpty_nil]
      exact hbuild.piece_usesUp (s := ⟨offset, payload, true⟩) (hfit _ List.mem_cons_self) fun _ => rfl
    · have hlt : gsoSize < payload.length := Nat.lt_of_not_le hle
      have hnonempty : (payload.drop gsoSize).isEmpty = false := by
        rw [List.isEmpty_eq_false_iff, ne_eq, List.drop_eq_nil_iff]
        omega
      have hlen : (payload.drop gsoSize).length < n := by
        rw [List.length_drop]
        omega
      rw [cut_of_lt hs offset hlt] at hfit ⊢
      obtain ⟨hpiece, hrest⟩ := List.forall_mem_cons.1 hfit
      rw [List.countP_cons, hnonempty, List.length_take_of_le hlt.le]
      exact hbuild.piece_usesUp (s := ⟨offset, payload.take gsoSize, false⟩) hpiece fun nextId => ih hlen hrest

/-- **What the software emitters send.** -/
theorem sendSegments_usesUp (hbuild : Numbers build h) {gsoSize : Nat} (hs : 0 < gsoSize)
    (hlen : payload.length ≤ 65535) (hh : h ≤ 1260) (hfit : h + maxSeg payload.length gsoSize ≤ 65535) :
    UsesUp (identTickets onWire) Went [] (sendSegments build gsoSize h payload) := by
  have hcount := gsoDf0Segments_eq hs hlen (.inr hh)
  have hpieces : ∀ s ∈ Cut.cut gsoSize 0 payload, h + s.data.length ≤ 65535 := fun s hmem => by
    have hle := length_data_le hs hmem
    have hle' := length_data_le_length hmem
    unfold maxSeg at hfit
    split at hfit <;> omega
  unfold sendSegments reserveSegments
  by_cases hzero : gsoDf0Segments payload.length gsoSize h = 0
  · rw [hzero] at hcount ⊢
    rw [if_pos rfl]
    have hloop : UsesUp (identTickets onWire) Went _ (segmentLoop gsoSize build _ 0 0 payload) :=
      segmentLoop_usesUp hbuild hs (Nat.lt_succ_self _) hpieces
    rw [← hcount] at hloop
    exact hloop
  · rw [if_neg hzero]
    refine UsesUp.call rfl fun x => ?_
    show UsesUp (identTickets onWire) Went (identBlock x (gsoDf0Segments payload.length gsoSize h).toNat) _
    rw [hcount]
    exact segmentLoop_usesUp hbuild hs (Nat.lt_succ_self _) hpieces

end Aggregates

/-! ### What is handed to the device -/

section Device

variable {r : In4 × In4}

private theorem gsoError6_silent {type code : Byte} {word : BitVec 32} {p : Pkt6} :
    (gsoError6 g type code word p).Asks Silent fun _ => True :=
  hostSendIcmp6Error_silent.bind fun _ _ => trivial

private theorem gsoMap6to4WithIcmp_silent {p : Pkt6} : (gsoMap6to4WithIcmp g p).Asks Silent fun _ => True :=
  gsoMap6to4WithIcmp_asks (fun _ _ => ⟨rfl, fun _ => rfl⟩) fun _ _ _ _ => hostSendIcmp6Error_silent

private theorem segmentTcp4_fields {e : Endian} {p : Pkt6} {tcp : TcpHdr} {flags : BitVec 16} {total : Nat}
    (i : BitVec 16) (s : Piece Byte) : (IsDf0 (segmentTcp4 e p tcp flags r.1 r.2 total i s) ↔ flags &&& ip4FDf = 0) ∧
      ident (segmentTcp4 e p tcp flags r.1 r.2 total i s) = i := by
  unfold segmentTcp4
  exact ⟨isDf0_ip4 rfl _, (fields_ip4 _ _).1⟩

private theorem segmentUdp4_fields {e : Endian} {p : Pkt6} {udp : UdpHdr} {flags : BitVec 16} {total : Nat}
    (i : BitVec 16) (s : Piece Byte) : (IsDf0 (segmentUdp4 e p udp flags r.1 r.2 total i s) ↔ flags &&& ip4FDf = 0) ∧
      ident (segmentUdp4 e p udp flags r.1 r.2 total i s) = i := by
  unfold segmentUdp4
  exact ⟨isDf0_ip4 rfl _, (fields_ip4 _ _).1⟩

/-- Every piece of the payload is counted. -/
private theorem segmentCount_toNat {gsoSize : Nat} {payload : List Byte} (hs : 0 < gsoSize)
    (hlen : payload.length ≤ 65535) :
    (segmentCount payload.length gsoSize).toNat = (Cut.cut gsoSize 0 payload).length := by
  have hcount : (if payload.length = 0 then 1 else (payload.length + gsoSize - 1) / gsoSize) =
      max 1 ((payload.length + gsoSize - 1) / gsoSize) := by
    by_cases hzero : payload.length = 0
    · rw [if_pos hzero, hzero, Nat.zero_add, Nat.div_eq_of_lt (Nat.sub_one_lt hs.ne')]
      rfl
    · rw [if_neg hzero, Nat.max_eq_right (Nat.div_pos (by omega) hs)]
  have hle : max 1 ((payload.length + gsoSize - 1) / gsoSize) < 65536 := by
    refine Nat.max_lt.2 ⟨by decide, (Nat.div_lt_iff_lt_mul hs).2 ?_⟩
    omega
  rw [segmentCount, BitVec.toNat_ofNat, hcount, Nat.mod_eq_of_lt hle, length_cut hs]

/-- **An aggregate that is handed over** uses an identification for each segment the device cuts, if DF is clear. -/
theorem gsoIdent_usesUp {segment : BitVec 16 → BitVec 16 → Piece Byte → List Byte} {gsoSize maxLen : Nat}
    {payload : List Byte} {w : Option VnetHdr} {packet : BitVec 16 × BitVec 16 → List Byte} (hs : 0 < gsoSize)
    (hlen : payload.length ≤ 65535)
    (hsegment : ∀ flags i s, (IsDf0 (segment flags i s) ↔ flags &&& ip4FDf = 0) ∧ ident (segment flags i s) = i)
    (hwire : ∀ r, onWire w (packet r) =
      numberedSegments (segment r.2) (if r.2 &&& ip4FDf = 0 then 1 else 0) r.1 (Cut.cut gsoSize 0 payload)) :
    UsesUp (identTickets onWire) Went [] (do
      let r ← gsoIdent maxLen payload.length gsoSize
      emit w (packet r)
      return true) := by
  unfold gsoIdent
  by_cases hshort : maxLen ≤ 1260
  · rw [if_pos hshort]
    refine UsesUp.call rfl fun x => write_usesUp [] ?_ (fun _ _ => rfl) fun _ _ => trivial
    rw [List.append_nil, wireIdents, hwire, if_pos (show (0 : BitVec 16) &&& ip4FDf = 0 by decide),
      idents_numbered fun i s => ⟨(hsegment 0 i s).1.2 (by decide), (hsegment 0 i s).2⟩, ← segmentCount_toNat hs hlen]
    rfl
  · rw [if_neg hshort]
    refine write_usesUp [] ?_ (fun _ _ => rfl) fun _ _ => trivial
    rw [wireIdents, hwire, idents_df fun i s hdf0 => absurd ((hsegment ip4FDf i s).1.1 hdf0) (by decide)]
    rfl

/-- The head of a split aggregate has DF set. -/
private theorem gsoTcpHead_idents {src4 dst4 : In4} (hdata : (d.drop 40).length < 65536)
    (hstart : v.csumStart.toNat = 40)
    (hoffset : v.csumOffset.toNat = 16) (hl4 : l4Len = tcpHdrLen (d.drop 40)) (hmin : 20 ≤ l4Len) {headLen : Nat}
    (hhead : l4Len + headLen ≤ (d.drop 40).length) :
    wireIdents onWire (gsoTcpHead g v (gsoPkt6 d v 6) l4Len headLen src4 dst4).1
      (gsoTcpHead g v (gsoPkt6 d v 6) l4Len headLen src4 dst4).2 = [] := by
  rw [wireIdents, onWire_gsoTcpHead hdata hstart hoffset hl4 hmin hhead]
  exact idents_df (fun i s hdf0 =>
    absurd ((segmentTcp4_fields (r := (src4, dst4)) i s).1.1 hdf0) (by decide)) _ _ _

/-- The tail of a split aggregate uses one identification. -/
private theorem gsoTcpTail_idents {p : Pkt6} {headLen : Nat} {src4 dst4 : In4} (i : BitVec 16) :
    wireIdents onWire (gsoTcpTail g p l4Len headLen src4 dst4 i).1 (gsoTcpTail g p l4Len headLen src4 dst4 i).2 =
      [i] := by
  unfold gsoTcpTail
  dsimp only
  split
  · rw [List.append_assoc, wireIdents_whole _ rfl]
    · exact if_pos (show (0 : BitVec 16) &&& ip4FDf = 0 by decide)
    · rintro w ⟨rfl⟩
      refine ⟨show vnetGsoNone &&& ~~~vnetGsoEcn = vnetGsoNone by decide, show 8 ≤ 20 + 16 by decide, fun _ => ?_⟩
      rw [List.length_append, length_ip4, List.length_append, length_tcp]
      show 20 + 16 + 2 ≤ _
      omega
  · rw [List.append_assoc, wireIdents_whole (fun w hw => absurd hw (Option.some_ne_none w).symm) rfl]
    exact if_pos (show (0 : BitVec 16) &&& ip4FDf = 0 by decide)

/-- An aggregate that is sent in two parts. -/
private theorem split_usesUp {w : Option VnetHdr} {packet : List Byte} {tail : BitVec 16 → Option VnetHdr × List Byte}
    (hhead : wireIdents onWire w packet = []) (htail : ∀ i, wireIdents onWire (tail i).1 (tail i).2 = [i]) :
    UsesUp (identTickets onWire) Went [] (do
      emit w packet
      let i ← ask (.reserveIp4Ident 1)
      emit (tail i).1 (tail i).2
      return true) := by
  refine UsesUp.call hhead fun _ => UsesUp.call rfl fun x => write_usesUp [] ?_ (fun _ _ => rfl) fun _ _ => trivial
  rw [htail, List.append_nil]
  exact (identBlock_one x).symm

/-- **What an entry point sends.** -/
theorem send6_usesUp (h : Aggregate6 entry d v l4Len) (hfit : 20 + largestL4 d v 40 l4Len ≤ 65535) (r : In4 × In4) :
    UsesUp (identTickets onWire) Went [] (entry.send6 g d v l4Len r) := by
  have hpos := gsoSize_pos h.hheader
  have hlen := payload_le h.hip6 l4Len
  have hpieces : 20 + l4Len + maxSeg ((d.drop 40).drop l4Len).length v.gsoSize.toNat ≤ 65535 := by
    rw [List.length_drop, List.length_drop, Nat.add_assoc]
    exact hfit
  have hsoftware : UsesUp (identTickets onWire) Went [] (entry.software.send6 g d v l4Len r) := by
    cases entry with
    | tcp =>
      have htcp : TcpAggregate6 d v false l4Len := h.hl4
      have := tcpHdrLen_le (d.drop 40)
      exact sendSegments_usesUp (buildTcp6to4_numbers _ _) hpos hlen (by rw [htcp.hl4]; omega) hpieces
    | tcpSoftware =>
      have htcp : TcpAggregate6 d v true l4Len := h.hl4
      have := tcpHdrLen_le (d.drop 40)
      exact sendSegments_usesUp (buildTcp6to4_numbers _ _) hpos hlen (by rw [htcp.hl4]; omega) hpieces
    | udp =>
      have hudp : UdpAggregate d v 40 l4Len := h.hl4
      obtain rfl := hudp.hl4
      exact sendSegments_usesUp (buildUdp6to4_numbers _) hpos hlen (by decide) hpieces
    | udpSoftware =>
      have hudp : UdpAggregate d v 40 l4Len := h.hl4
      obtain rfl := hudp.hl4
      exact sendSegments_usesUp (buildUdp6to4_numbers _) hpos hlen (by decide) hpieces
  cases entry with
  | tcp =>
    have htcp : TcpAggregate6 d v false l4Len := h.hl4
    obtain ⟨-, -, hstart, hoffset, -⟩ := gsoValidateTransportVnet_iff.1 (htcp.hvnet (.inl rfl))
    have hfit := htcp.hfit
    have hdata : (d.drop 40).length < 65536 := gsoPkt6_length (v := v) h.hip6
    have hle : l4Len + ((d.drop 40).drop l4Len).length = (d.drop 40).length := by
      rw [List.length_drop (i := l4Len), List.length_drop]
      omega
    refine .ite (fun _ => hsoftware) fun _ => .ite (fun _ => ?_) fun _ => ?_
    · have hmul := Nat.div_mul_le_self ((d.drop 40).drop l4Len).length v.gsoSize.toNat
      have hparts : l4Len + ((d.drop 40).drop l4Len).length / v.gsoSize.toNat * v.gsoSize.toNat ≤
          (d.drop 40).length := by omega
      exact split_usesUp (gsoTcpHead_idents hdata hstart hoffset htcp.hl4 htcp.hmin hparts) gsoTcpTail_idents
    · exact gsoIdent_usesUp hpos hlen (fun flags i s => segmentTcp4_fields i s) fun ident =>
        onWire_tcpAggregate6 h r ident.1 ident.2
  | tcpSoftware => exact hsoftware
  | udp =>
    have hudp : UdpAggregate d v 40 l4Len := h.hl4
    obtain rfl := hudp.hl4
    exact .ite (fun _ => hsoftware) fun _ => gsoIdent_usesUp hpos hlen (fun flags i s => segmentUdp4_fields i s)
      fun ident => onWire_udpAggregate6 h r ident.1 ident.2
  | udpSoftware => exact hsoftware

/-- **What an entry point takes.** -/
theorem aggregate6_usesUp (h : Aggregate6 entry d v l4Len) (hmtu : mtuMin ≤ g.mtu) (hmax : g.mtu < 65536) :
    UsesUp (identTickets onWire) Went [] (entry.run6 g d (some v)) := by
  have hip6 : (gsoPkt6 d v entry.proto).ip6 = Ip6.ofBytes d := gsoPkt6_ip6 h.length
  rw [entry6_program h hmtu hmax]
  refine .ite (fun _ => .of_asks gsoError6_silent) fun hbig => .ite (fun _ => .of_asks gsoError6_silent) fun hhops =>
    .of_asks_bind gsoMap6to4WithIcmp_silent fun r => ?_
  cases r with
  | error handled => exact rfl
  | ok r =>
    rw [hip6] at hhops
    have hfit : 40 + largestL4 d v 40 l4Len ≤ g.mtu :=
      Nat.not_lt.1 fun hlt => hbig (GsoEntry.tooBig6_of_exceeds hhops hlt)
    exact send6_usesUp h (by omega) r

/-- What `gso_translate_udp_6to4` does not take: at most an error is sent. -/
private theorem udp6_refuses (h : ¬∃ l4Len, Aggregate6 .udp d v l4Len) {P : PktOp → Prop}
    (herror : (gsoError6 g 3 0 0 (gsoPkt6 d v 17)).Asks P fun _ => True) :
    (gsoTranslateUdp6to4 g d (some v)).Asks P fun _ => True := by
  unfold gsoTranslateUdp6to4
  refine .ite (fun _ => trivial) fun hgso => .ite (fun _ => trivial) fun hheader => .ite (fun _ => trivial) fun hip6 =>
    .ite (fun _ => trivial) fun _ => .ite (fun _ => herror) fun _ => .ite (fun _ => trivial) fun hsized =>
    absurd ⟨8, ?_⟩ h
  rw [not_or, not_or, Bool.not_eq_true', Bool.not_eq_true', Bool.not_eq_false, Bool.not_eq_false] at hip6
  rw [Bool.not_eq_true', Bool.not_eq_false] at hsized
  exact ⟨gsoValidateHeader_eq_one hheader, hip6.2.1, not_not.1 hgso, rfl, Nat.not_lt.1 hip6.1, hip6.2.2, hsized⟩

end Device

/-! ### Other devices -/

section Promises

variable {device : Device}

/-- What the device promises something about. -/
def Promised (vhdr : Option VnetHdr) (packet : List Byte) : Prop :=
  ∀ v, vhdr = some v → v.gso = vnetGsoNone ∨ Cuttable v packet

private theorem Handed.promised {packet : List Byte} (h : Handed vhdr packet) : Promised vhdr packet :=
  fun v hv => (h v hv).imp_left And.left

private theorem Plain.promised {packet : List Byte} (h : Plain vhdr packet) : Promised vhdr packet :=
  fun v hv => absurd (hv.symm.trans h) (Option.some_ne_none v)

/-- A device uses the identifications that `onWire` does, if the packet goes out. -/
private theorem Offloads.idents_le (hdev : Offloads device) {packet : List Byte} (hp : Promised vhdr packet) :
    List.Sublist (wireIdents device vhdr packet) (wireIdents onWire vhdr packet) := by
  unfold wireIdents
  cases vhdr with
  | none =>
    rw [hdev.hplain]
    exact List.Sublist.refl _
  | some v =>
    rcases hp v rfl with hgso | hcut
    · rcases hdev.hwhole v packet hgso with hnil | ⟨hfits, out, hout, halike⟩
      · rw [hnil]
        exact List.nil_sublist _
      · rw [hout, onWire, if_pos hgso, if_pos hfits, idents_alike (.cons halike .nil)]
    · rw [onWire, if_neg hcut.ne_none, idents_alike (hdev.hcuts v packet hcut)]

/-- What a program uses of what it has drawn, whatever the device. -/
theorem Offloads.spends {α : Type} (hdev : Offloads device) {prog : PktProg α} (hsends : OnlySends Promised prog)
    (h : Spends (identTickets onWire) rest prog AnyRest) : Spends (identTickets device) rest prog AnyRest :=
  h.used_le (Asks.mono hsends (fun op hop => by
    cases op with
    | write vhdr packet => exact ⟨hdev.idents_le hop, fun _ => rfl⟩
    | _ => exact ⟨List.Sublist.refl _, fun _ => rfl⟩) fun _ h => h)

private theorem Offloads.usesUp {α : Type} (hdev : Offloads device) {prog : PktProg α} (hsends : OnlySends Handed prog)
    (h : UsesUp (identTickets onWire) Went rest prog) : UsesUp (identTickets device) Went rest prog :=
  h.used_eq (Asks.mono hsends (fun op hop => by
    cases op with
    | write vhdr packet => exact ⟨idents_alike (hdev.alike hop), fun _ => rfl⟩
    | _ => exact ⟨rfl, fun _ => rfl⟩) fun _ h => h)

private theorem aggregate6_handed (h : Aggregate6 entry d v l4Len) (hmtu : mtuMin ≤ g.mtu) (hmax : g.mtu < 65536) :
    OnlySends Handed (entry.run6 g d (some v)) := by
  rw [entry6_program h hmtu hmax]
  exact checked6_sends entry.isTransport_proto.ne_icmp.2 (fun _ _ h => h.handed) fun r => send6_handed h r

private theorem gsoError6_handed {type code : Byte} {word : BitVec 32} :
    OnlySends Handed (gsoError6 g type code word (gsoPkt6 d v 17)) :=
  OnlySends.mono (gsoError6_plain (show (17 : Byte) ≠ 58 by decide)) fun _ _ h => h.handed

/-- What `handle_ip6` does with an aggregate. -/
private theorem aggregate_usesUp {offload : Bool} (hmtu : mtuMin ≤ g.mtu) (hmax : g.mtu < 65536)
    (hgso : isGso vhdr = true) :
    OnlySends Handed (handleIp6 g offload d vhdr) ∧
      UsesUp (identTickets onWire) Went [] (handleIp6 g offload d vhdr) := by
  have hend : ∀ {prog : PktProg Bool}, OnlySends Handed prog ∧ UsesUp (identTickets onWire) Went [] prog →
      OnlySends Handed (dropRefused d.length prog) ∧ UsesUp (identTickets onWire) Went [] (dropRefused d.length prog) :=
    fun hprog => ⟨hprog.1.bind fun _ => .ite (fun _ => .done _) fun _ => .statsDrop _,
      hprog.2.bind_of_asks (R := fun _ => True) fun _ => .ite (fun _ => trivial) fun _ => statsDrop_silent⟩
  cases vhdr with
  | none => cases hgso
  | some v =>
    unfold handleIp6
    rw [if_pos hgso]
    refine hend ?_
    split_ifs
    · by_cases hagg : ∃ l4Len, Aggregate6 .tcp d v l4Len
      · obtain ⟨l4Len, hagg⟩ := hagg
        exact ⟨aggregate6_handed hagg hmtu hmax, aggregate6_usesUp hagg hmtu hmax⟩
      · rw [tcp6_refuses hagg]
        exact ⟨.done _, rfl⟩
    · by_cases hagg : ∃ l4Len, Aggregate6 .udp d v l4Len
      · obtain ⟨l4Len, hagg⟩ := hagg
        exact ⟨aggregate6_handed hagg hmtu hmax, aggregate6_usesUp hagg hmtu hmax⟩
      · exact ⟨udp6_refuses hagg gsoError6_handed, .of_asks (udp6_refuses hagg gsoError6_silent)⟩
    · exact ⟨.done _, rfl⟩

/-- What is written for a packet that is no aggregate. -/
private theorem handlePlain6_promised : OnlySends Promised (handlePlain6 g d vhdr) := by
  refine handlePlain6_output.mono fun w packet h => ?_
  obtain ⟨p, ⟨-, -, h⟩ | ⟨-, -, word, rfl, -⟩⟩ := h
  · cases h with
    | whole => exact fun v hv => .inl (outVhdr_gso hv)
    | _ => exact (show Plain none _ from rfl).promised
  · exact (show Plain none _ from rfl).promised

variable (g) in
/-- **Whatever packet it is**, without a fragment header it uses what it has drawn, whatever the device. -/
theorem handleIp6_spends (hdev : Offloads device) {offload : Bool} (hmtu : mtuMin ≤ g.mtu) (hmax : g.mtu < 65536)
    (hfrag : ∀ p, parseIp6 d vhdr false = .ok p → p.frag = none) :
    Spends (identTickets device) [] (handleIp6 g offload d vhdr) AnyRest := by
  by_cases hgso : isGso vhdr = true
  · have hagg : OnlySends Handed (handleIp6 g offload d vhdr) ∧ _ := aggregate_usesUp hmtu hmax hgso
    exact (hdev.usesUp hagg.1 hagg.2).spends
  · unfold handleIp6
    rw [if_neg hgso]
    exact hdev.spends handlePlain6_promised (handlePlain6_spends hfrag)

end Promises

/-! ### Workers -/

section Workers

variable {J : Type} [DecidableEq J] {run : List (J × Sigma PktOp.Ans)} {n : Nat}

/-- The counter of identifications is added to and read at once, whoever draws. -/
def FetchAdds : BitVec 16 → List (J × Sigma PktOp.Ans) → Prop
  | _, [] => True
  | next, ⟨_, ⟨.reserveIp4Ident count, x⟩⟩ :: run => x = next ∧ FetchAdds (next + count) run
  | next, _ :: run => FetchAdds next run

/-- Identification `n`, if the counter begins at `base`. -/
def identNumber (base : BitVec 16) (n : Nat) : BitVec 16 := base + BitVec.ofNat 16 n

private theorem identNumber_add (base : BitVec 16) (n m : Nat) :
    identNumber base (n + m) = identNumber base n + BitVec.ofNat 16 m := by
  unfold identNumber
  rw [BitVec.ofNat_add, BitVec.add_assoc]

/-- Identifications repeat after 65536. -/
private theorem far_of_identNumber {base : BitVec 16} {m : Nat} (hne : n ≠ m)
    (h : identNumber base n = identNumber base m) :
    n + 65536 ≤ m ∨ m + 65536 ≤ n := by
  have hmod := congrArg BitVec.toNat ((BitVec.add_right_inj base).1 h)
  rw [BitVec.toNat_ofNat, BitVec.toNat_ofNat] at hmod
  omega

omit [DecidableEq J] in
/-- **The counter hands out consecutive numbers.** -/
theorem FetchAdds.countsFrom {device : Device} {base : BitVec 16} (h : FetchAdds (identNumber base n) run) :
    CountsFrom (identTickets device) PktOp.reserves (identNumber base) n run := by
  induction run generalizing n with
  | nil => trivial
  | cons e run ih =>
    obtain ⟨j, op, x⟩ := e
    cases op with
    | reserveIp4Ident count =>
      obtain ⟨rfl, h⟩ := h
      refine ⟨?_, ih ?_⟩
      · show identBlock (identNumber base n) count.toNat = (List.range' n count.toNat).map (identNumber base)
        rw [identBlock, List.range'_eq_map_range, List.map_map]
        exact List.map_congr_left fun i _ => (identNumber_add base n i).symm
      · show FetchAdds (identNumber base (n + count.toNat)) run
        rw [identNumber_add, BitVec.ofNat_toNat, BitVec.setWidth_eq]
        exact h
    | _ => exact ⟨rfl, ih h⟩

omit [DecidableEq J] in
private theorem FetchAdds.countsFrom_base {device : Device} {base : BitVec 16} (h : FetchAdds base run) :
    CountsFrom (identTickets device) PktOp.reserves (identNumber base) 0 run :=
  countsFrom (by rwa [identNumber, show base + BitVec.ofNat 16 0 = base from BitVec.add_zero base])

/-- The identifications of the datagrams with DF clear that go out for a job, in this order. -/
def jobIdents (device : Device) (j : J) (run : List (J × Sigma PktOp.Ans)) : List (BitVec 16) :=
  (project j run).flatMap fun e => (identTickets device).used e.1

/-- A packet from IPv6 without a fragment header. -/
def Unfragmented6 (d : List Byte) (vhdr : Option VnetHdr) : Prop :=
  version d = 6 ∧ ∀ p, parseIp6 d vhdr false = .ok p → p.frag = none

private theorem handlePacket_six {offload : Bool} (h : version d = 6) :
    handlePacket g offload d vhdr = handleIp6 g offload d vhdr := by
  have hsix : getU8 d 0 >>> 4 = 6 := h
  rw [handlePacket, hsix, if_neg (by decide), if_pos rfl]

/-- **Every worker has numbers of its own.** -/
theorem exists_own_numbers {device : Device} (hdev : Offloads device) (hmtu : mtuMin ≤ g.mtu) (hmax : g.mtu < 65536)
    {offload : Bool} {job : J → List Byte × Option VnetHdr}
    (hrun : Interleaved (fun j => handlePacket g offload (job j).1 (job j).2) run) {base : BitVec 16}
    (hcount : CountsFrom (identTickets device) PktOp.reserves (identNumber base) 0 run) :
    ∃ tickets : J → List Nat,
      (∀ j, Unfragmented6 (job j).1 (job j).2 → jobIdents device j run = (tickets j).map (identNumber base)) ∧
      (∀ j, List.Sublist (tickets j) (numbers PktOp.reserves j 0 run)) ∧
      ∀ (j j' : J) (i i' n n' : Nat), (tickets j)[i]? = some n → (tickets j')[i']? = some n' → (j, i) ≠ (j', i') →
        n ≠ n' := by
  have hspends : ∀ j, Unfragmented6 (job j).1 (job j).2 →
      Spends (identTickets device) [] (handlePacket g offload (job j).1 (job j).2) AnyRest := fun j h => by
    rw [handlePacket_six h.1]
    exact handleIp6_spends g hdev hmtu hmax h.2
  obtain ⟨tickets, hused, hown, hnodup, hdisjoint⟩ := exists_tickets hrun hcount hspends
  refine ⟨tickets, fun j h => (hused j h).symm, hown, fun j j' i i' n n' hn hn' hne hnumber => ?_⟩
  subst hnumber
  by_cases hj : j = j'
  · subst hj
    refine hne (congrArg _ ?_)
    obtain ⟨hi, rfl⟩ := List.getElem?_eq_some_iff.1 hn
    obtain ⟨hi', heq⟩ := List.getElem?_eq_some_iff.1 hn'
    exact ((hnodup j).getElem_inj_iff.1 heq).symm
  · exact hdisjoint j j' hj (List.mem_of_getElem? hn) (List.mem_of_getElem? hn')

/-- **An aggregate uses exactly what it has drawn**, if every write succeeds. -/
theorem aggregate_uses_block {device : Device} (hdev : Offloads device) (hmtu : mtuMin ≤ g.mtu) (hmax : g.mtu < 65536)
    {offload : Bool} {base : BitVec 16}
    (hcount : CountsFrom (identTickets device) PktOp.reserves (identNumber base) 0 run) {j : J}
    (hsix : version d = 6) (hgso : isGso vhdr = true)
    (hruns : (handlePacket g offload d vhdr).Runs (project j run) ()) (hsent : AllSent (project j run)) :
    jobIdents device j run = (numbers PktOp.reserves j 0 run).map (identNumber base) := by
  rw [handlePacket_six hsix] at hruns
  have hagg : OnlySends Handed (handleIp6 g offload d vhdr) ∧ _ := aggregate_usesUp hmtu hmax hgso
  rw [← hcount.handed j]
  exact (hdev.usesUp hagg.1 hagg.2).runs hruns hsent

end Workers

/-- **Identifications are unique across workers**, in every interleaving of workers that handle packets of both families
and draw from one counter, whatever the device.  There is a number for each datagram with DF clear that goes out for an
unfragmented IPv6 packet, the segments that the device cuts counted; it gives the identification, the worker has drawn
it for this packet, and two datagrams of one identification have numbers at least 65536 apart. -/
theorem idents_unique (device : Device) (hdev : Offloads device) (g : Gcfg) (hmtu : mtuMin ≤ g.mtu)
    (hmax : g.mtu < 65536) (offload : Bool) {J : Type} [DecidableEq J] (job : J → List Byte × Option VnetHdr)
    (run : List (J × Sigma PktOp.Ans)) (hrun : Interleaved (fun j => handlePacket g offload (job j).1 (job j).2) run)
    (base : BitVec 16) (hcount : FetchAdds base run) :
    ∃ tickets : J → List Nat,
      (∀ j, Unfragmented6 (job j).1 (job j).2 → jobIdents device j run = (tickets j).map (identNumber base)) ∧
      (∀ j, List.Sublist (tickets j) (numbers PktOp.reserves j 0 run)) ∧
      ∀ (j j' : J) (i i' n n' : Nat), (tickets j)[i]? = some n → (tickets j')[i']? = some n' → (j, i) ≠ (j', i') →
        identNumber base n = identNumber base n' → n + 65536 ≤ n' ∨ n' + 65536 ≤ n := by
  obtain ⟨tickets, hused, hown, hdiffer⟩ := exists_own_numbers hdev hmtu hmax hrun hcount.countsFrom_base
  exact ⟨tickets, hused, hown, fun j j' i i' n n' hn hn' hne =>
    far_of_identNumber (hdiffer j j' i i' n n' hn hn' hne)⟩

/-- What a worker does with two datagrams of eight bytes from IPv6 that the device cuts, if the counter is at `base`. -/
def workerTrace (base : BitVec 16) : List (Sigma PktOp.Ans) :=
  ((handlePacket usoGcfg true udpSegments6 (some udpGso6)).exec (fun op _ => (match op with
    | .reserveIp4Ident _ => base
    | op => frameAns op, ())) ()).1

/-- Two workers: the second one draws first. -/
def workersRun : List (Bool × Sigma PktOp.Ans) :=
  ((workerTrace 0xb00d).take 2).map (Prod.mk false) ++ ((workerTrace 0xb00b).take 3).map (Prod.mk true) ++
    ((workerTrace 0xb00d).drop 2).map (Prod.mk false) ++ ((workerTrace 0xb00b).drop 3).map (Prod.mk true)

private theorem workersRun_runs (j : Bool) :
    (handlePacket usoGcfg true udpSegments6 (some udpGso6)).Runs (project j workersRun) () := by
  have hfalse : project false workersRun = workerTrace 0xb00d := rfl
  have htrue : project true workersRun = workerTrace 0xb00b := rfl
  cases j
  · rw [hfalse]
    exact runs_exec _ _ _
  · rw [htrue]
    exact runs_exec _ _ _

private theorem workersRun_interleaved :
    Interleaved (fun _ => handlePacket usoGcfg true udpSegments6 (some udpGso6)) workersRun :=
  fun j => ⟨_, (workersRun_runs j).steps⟩

private theorem udpSegments6_unfragmented : Unfragmented6 udpSegments6 (some udpGso6) := by
  refine ⟨rfl, fun p hp => ?_⟩
  rw [show parseIp6 udpSegments6 (some udpGso6) false = .ok (gsoPkt6 udpSegments6 udpGso6 17) by decide +kernel] at hp
  cases hp
  rfl

theorem idents_unique_pair : ∃ tickets : Bool → List Nat,
    (∀ j, jobIdents kernelDevice j workersRun = (tickets j).map (identNumber 0xb00b)) ∧
    jobIdents kernelDevice false workersRun = [0xb00d, 0xb00e] ∧
    jobIdents kernelDevice true workersRun = [0xb00b, 0xb00c] := by
  obtain ⟨tickets, h, -⟩ := idents_unique kernelDevice kernelDevice_offloads usoGcfg (by decide) (by decide) true
    (fun _ => (udpSegments6, some udpGso6)) workersRun workersRun_interleaved 0xb00b ⟨rfl, rfl, trivial⟩
  exact ⟨tickets, fun j => h j udpSegments6_unfragmented, by decide +kernel, by decide +kernel⟩

/-- **Identifications come from blocks**, each of which is drawn at once.  Datagrams with DF clear that go out for
packets without a fragment header have numbers of their own, and so different identifications while fewer than 65536
others are drawn.  An aggregate whose writes all succeed uses exactly the numbers it has drawn. -/
theorem idents_from_blocks (device : Device) (hdev : Offloads device) (g : Gcfg) (hmtu : mtuMin ≤ g.mtu)
    (hmax : g.mtu < 65536) (offload : Bool) {J : Type} [DecidableEq J] (job : J → List Byte × Option VnetHdr)
    (run : List (J × Sigma PktOp.Ans)) (hrun : Interleaved (fun j => handlePacket g offload (job j).1 (job j).2) run)
    (base : BitVec 16) (hcount : FetchAdds base run) :
    (∃ tickets : J → List Nat,
      (∀ j, Unfragmented6 (job j).1 (job j).2 → jobIdents device j run = (tickets j).map (identNumber base)) ∧
      (∀ j, List.Sublist (tickets j) (numbers PktOp.reserves j 0 run)) ∧
      ∀ (j j' : J) (i i' n n' : Nat), (tickets j)[i]? = some n → (tickets j')[i']? = some n' → (j, i) ≠ (j', i') →
        n < n' + 65536 → n' < n + 65536 → identNumber base n ≠ identNumber base n') ∧
    ∀ j, version (job j).1 = 6 → isGso (job j).2 = true →
      (handlePacket g offload (job j).1 (job j).2).Runs (project j run) () → AllSent (project j run) →
      jobIdents device j run = (numbers PktOp.reserves j 0 run).map (identNumber base) := by
  obtain ⟨tickets, hused, hown, hdiffer⟩ := exists_own_numbers hdev hmtu hmax hrun hcount.countsFrom_base
  refine ⟨⟨tickets, hused, hown, fun j j' i i' n n' hn hn' hne hlt hlt' hident => ?_⟩,
    fun j hsix hgso => aggregate_uses_block hdev hmtu hmax hcount.countsFrom_base hsix hgso⟩
  have := far_of_identNumber (hdiffer j j' i i' n n' hn hn' hne) hident
  omega

theorem idents_from_blocks_pair :
    jobIdents kernelDevice false workersRun = (numbers PktOp.reserves false 0 workersRun).map (identNumber 0xb00b) ∧
    jobIdents kernelDevice true workersRun = (numbers PktOp.reserves true 0 workersRun).map (identNumber 0xb00b) ∧
    numbers PktOp.reserves false 0 workersRun = [2, 3] ∧ numbers PktOp.reserves true 0 workersRun = [0, 1] := by
  obtain ⟨-, hblock⟩ := idents_from_blocks kernelDevice kernelDevice_offloads usoGcfg (by decide) (by decide) true
    (fun _ => (udpSegments6, some udpGso6)) workersRun workersRun_interleaved 0xb00b ⟨rfl, rfl, trivial⟩
  exact ⟨hblock false rfl rfl (workersRun_runs false) (by decide +kernel),
    hblock true rfl rfl (workersRun_runs true) (by decide +kernel), by decide +kernel, by decide +kernel⟩

/-- A whole datagram of eight bytes from IPv6 with a fragment header of identification 7. -/
def atomicFragment : List Byte :=
  (Ip6.mk 0x60000000 24 44 64 0x20010db80000000000000000c0000205 0x0064ff9b0000000000000000c0000201).toBytes ++
    (Ip6Frag.mk 17 0 0 7).toBytes ++ ((UdpHdr.mk 0x3039 0x35 16 0x1234).toBytes ++ List.replicate 8 0)

/-- What a worker does with it. -/
def atomicTrace : List (Sigma PktOp.Ans) :=
  ((handlePacket usoGcfg true atomicFragment none).exec (fun op _ => (frameAns op, ())) ()).1

/-- What a worker does with two datagrams of eight bytes that it cuts itself, if the first write fails. -/
def brokenTrace : List (Sigma PktOp.Ans) :=
  ((handlePacket vnetGcfg true udpSegments6 (some udpGso6)).exec (fun op _ => (match op with
    | .write _ _ => 0
    | op => frameAns op, ())) ()).1

/-- The packet is IPv4, whole, and has DF clear. -/
def WholeDf0 (packet : List Byte) : Prop := version packet = 4 ∧ getBe16 packet 6 = 0

instance (packet : List Byte) : Decidable (WholeDf0 packet) := inferInstanceAs (Decidable (_ ∧ _))

/-- Two workers send whole datagrams with DF clear and one identification, and none is drawn at all.  And an emitter
whose first write fails does not use the second identification it has drawn. -/
theorem idents_from_blocks_fails :
    (let run := atomicTrace.map (Prod.mk false) ++ atomicTrace.map (Prod.mk true)
    Interleaved (fun _ => handlePacket usoGcfg true atomicFragment none) run ∧ FetchAdds 0xb00b run ∧
      AllSent (run.map Prod.snd) ∧ numbers PktOp.reserves false 0 run = [] ∧ numbers PktOp.reserves true 0 run = [] ∧
      ∀ j, ∃ packet, outputs (project j run) = [packet] ∧ WholeDf0 packet ∧ ident packet = 7) ∧
    (let run := brokenTrace.map (Prod.mk ())
    Interleaved (fun _ => handlePacket vnetGcfg true udpSegments6 (some udpGso6)) run ∧ FetchAdds 0xb00b run ∧
      numbers PktOp.reserves () 0 run = [0, 1] ∧ jobIdents kernelDevice () run = [0xb00b]) := by
  have hsix : Interleaved (fun _ : Unit => handlePacket vnetGcfg true udpSegments6 (some udpGso6))
      (brokenTrace.map (Prod.mk ())) := by
    intro j
    rw [show project j (brokenTrace.map (Prod.mk ())) = brokenTrace from rfl]
    exact ⟨_, (runs_exec _ _ _).steps⟩
  have hatomic : Interleaved (fun _ : Bool => handlePacket usoGcfg true atomicFragment none)
      (atomicTrace.map (Prod.mk false) ++ atomicTrace.map (Prod.mk true)) := by
    intro j
    rw [show project j (atomicTrace.map (Prod.mk false) ++ atomicTrace.map (Prod.mk true)) = atomicTrace by
      cases j <;> rfl]
    exact ⟨_, (runs_exec _ _ _).steps⟩
  refine ⟨⟨hatomic, trivial, by decide +kernel, by decide +kernel, by decide +kernel, fun j => ?_⟩, hsix,
    ⟨rfl, trivial⟩, by decide +kernel, by decide +kernel⟩
  cases j
  · exact ⟨_, rfl, by decide +kernel, by decide +kernel⟩
  · exact ⟨_, rfl, by decide +kernel, by decide +kernel⟩

end Tayga
