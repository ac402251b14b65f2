import Tayga.FlowDispatch
import Tayga.Headers
import Tayga.Lib.Program

/-!
# The reads of the flow classifier

The classifier once more, as the program of its reads: every byte it looks at is an operation.  It returns what
`flowParse` returns, and whatever the bytes are it reads only inside the packet.  A quoted packet is read through the
same pointer moved by `b`.
-/

namespace Tayga

/-- A computation that reads bytes behind a pointer, by their offset. -/
abbrev Reading (α : Type) := Program Nat (fun _ => Byte) α

/-- `p[k]`. -/
def readByte (k : Nat) : Reading Byte := .ask k

/-- `memcpy (.., p + k, n)`. -/
def readBytes (k : Nat) : Nat → Reading (List Byte)
  | 0 => pure []
  | n + 1 => do
    let a ← readByte k
    let l ← readBytes (k + 1) n
    pure (a :: l)

/-- `flow_be16 (p + k)`. -/
def readBe16 (k : Nat) : Reading (BitVec 16) := do
  let hi ← readByte k
  let lo ← readByte (k + 1)
  pure (hi ++ lo)

/-! ### The headers -/

/-- The reads of `flowExtStep`. -/
def readExtStep (b : Nat) (seenFragment : Bool) (h : FlowHeaders) : Reading (Option (Bool × FlowHeaders)) :=
  if 296 < h.off ∨ h.len < h.off + 2 then pure none
  else do
    let next ← readByte (b + h.off)
    if h.proto = 44 then
      if seenFragment ∨ h.len < h.off + 8 then pure none
      else do
        let frag ← readBe16 (b + (h.off + 2))
        let reserved ← readByte (b + (h.off + 1))
        if reserved ≠ 0 ∨ frag &&& 6 ≠ 0 then pure none
        else do
          let fragmented : Bool := frag &&& 0xfff9 ≠ 0
          let ident ← (if fragmented then readBytes (b + (h.off + 4)) 4 else pure h.ident)
          if fragmented ∧ frag &&& 1 ≠ 0 ∧ (h.len - h.off - 8) % 8 ≠ 0 then pure none
          else if h.len - h.off < 8 ∨ 296 < h.off + 8 then pure none
          else pure (some (true, { h with
            off := h.off + 8
            proto := next
            fragmented := fragmented
            first := frag &&& 0xfff8 = 0
            ident := ident
            keyProto := if fragmented then next else h.keyProto }))
    else do
      let units ← readByte (b + (h.off + 1))
      let len := if h.proto = 51 then (units.toNat + 2) * 4 else (units.toNat + 1) * 8
      if h.len - h.off < len ∨ 296 < h.off + len then pure none
      else pure (some (seenFragment, { h with
        off := h.off + len
        proto := next }))

/-- The reads of `flowExt`. -/
def readExt (b : Nat) : Nat → Bool → FlowHeaders → Reading (Option FlowHeaders)
  | 0, _, h => pure (if isFlowExt h.proto then none else some h)
  | count + 1, seenFragment, h =>
    if isFlowExt h.proto then do
      match ← readExtStep b seenFragment h with
      | none => pure none
      | some (seenFragment, h) => if h.first then readExt b count seenFragment h else pure (some h)
    else pure (some h)

/-- The reads of `flowHeaders4`. -/
def readHeaders4 (b n depth : Nat) : Reading (Option FlowHeaders) :=
  if n < 20 then pure none
  else do
    let ihl ← readByte (b + 0)
    let off := (ihl &&& 15).toNat * 4
    if off < 20 ∨ n < off then pure none
    else do
      let total ← readBe16 (b + 2)
      if total.toNat < off ∨ (depth = 0 ∧ total.toNat ≠ n) then pure none
      else do
        let n := min total.toNat n
        let proto ← readByte (b + 9)
        let src ← readBytes (b + 12) 4
        let dst ← readBytes (b + 16) 4
        let frag ← readBe16 (b + 6)
        if frag &&& 0x8000 ≠ 0 then pure none
        else
          let fragmented : Bool := frag &&& 0x3fff ≠ 0
          if fragmented ∧ (frag &&& 0x4000 ≠ 0 ∨ (frag &&& 0x2000 ≠ 0 ∧ (n - off) % 8 ≠ 0)) then pure none
          else do
            -- the source reads the identification of fragments only
            let ident ← readBytes (b + 4) 2
            pure (some
              { family := 4
                len := n
                off := off
                proto := proto
                src := src ++ List.replicate 12 0
                dst := dst ++ List.replicate 12 0
                fragmented := fragmented
                first := frag &&& 0x1fff = 0
                ident := ident ++ [0, 0]
                keyProto := proto })

/-- The reads of `flowHeaders6`. -/
def readHeaders6 (b n depth : Nat) : Reading (Option FlowHeaders) :=
  if n < 40 then pure none
  else do
    let payload ← readBe16 (b + 4)
    let total := 40 + payload.toNat
    if payload = 0 ∨ (depth = 0 ∧ total ≠ n) then pure none
    else do
      let proto ← readByte (b + 6)
      let src ← readBytes (b + 8) 16
      let dst ← readBytes (b + 24) 16
      readExt b 8 false
        { family := 6
          len := min total n
          off := 40
          proto := proto
          src := src
          dst := dst
          fragmented := false
          first := true
          ident := [0, 0, 0, 0]
          keyProto := 0 }

/-- The reads of `flowHeaders`. -/
def readHeaders (b n depth : Nat) : Reading (Option FlowHeaders) :=
  if n = 0 then pure none
  else do
    let version ← readByte (b + 0)
    if version >>> 4 = 4 then readHeaders4 b n depth
    else if version >>> 4 = 6 then readHeaders6 b n depth
    else pure none

/-- The reads of `flowParseDepth`. -/
def readParseDepth (quoted : Nat → Nat → Reading (Option FlowPacket)) (b n depth : Nat) :
    Reading (Option FlowPacket) := do
  match ← readHeaders b n depth with
  | none => pure none
  | some h =>
    if h.fragmented ∧ ¬h.first then pure (some h.packet)
    else if hasPorts h.proto then
      if h.len < h.off + 4 then pure none
      else do
        let srcPort ← readBytes (b + h.off) 2
        let dstPort ← readBytes (b + (h.off + 2)) 2
        pure (some { h.packet with
          flowHash := flowKeyHash h srcPort dstPort
          transport := true })
    else if (h.proto = 1 ∨ h.proto = 58) ∧ h.off + 8 ≤ h.len then do
      let type ← readByte (b + h.off)
      let inner ← (if depth = 0 ∧ quotesPacket h.proto type then quoted (b + (h.off + 8)) (h.len - h.off - 8)
        else pure none)
      match inner.filter fun q => q.transport && (!q.fragmented || q.first) with
      | some q => pure (some { h.packet with
          flowHash := q.flowHash
          transport := true })
      | none =>
        if isFlowEcho h.proto type then do
          let srcPort ← readBytes (b + (h.off + 4)) 2
          let dstPort ← readBytes (b + (h.off + 4)) 2
          pure (some { h.packet with
            flowHash := flowKeyHash h srcPort dstPort
            transport := true })
        else pure (some { h.packet with flowHash := flowKeyHash h [0, 0] [0, 0] })
    else pure (some { h.packet with flowHash := flowKeyHash h [0, 0] [0, 0] })

/-- The reads of `flowParse`. -/
def readParse (n : Nat) : Reading (Option FlowPacket) :=
  readParseDepth (fun b m => readParseDepth (fun _ _ => pure none) b m 1) 0 n 0

/-! ### What the program returns -/

theorem answer_readByte (p : Mem) (k : Nat) : (readByte k).answer p = p k := by
  rw [readByte, Program.ask, Program.answer_call, Program.answer_done]

theorem answer_readBytes (p : Mem) (k n : Nat) : (readBytes k n).answer p = p.read k n := by
  induction n generalizing k with
  | zero => rfl
  | succ n ih =>
    rw [readBytes, Program.answer_bind, answer_readByte, Program.answer_bind, ih]
    simp [Mem.read, List.range_succ_eq_map, Nat.add_assoc, Nat.add_comm 1]

theorem answer_readBe16 (p : Mem) (k : Nat) : (readBe16 k).answer p = flowBe16 p k := by
  rw [readBe16, Program.answer_bind, Program.answer_bind, answer_readByte, answer_readByte]
  rfl

theorem flowBe16_getU8 (d : List Byte) (k : Nat) : flowBe16 (getU8 d) k = getBe16 d k := by
  rw [flowBe16, getBe16]

/-- The bytes of a string, read as a block. -/
theorem read_getU8 (d : List Byte) (k n : Nat) (h : k + n ≤ d.length) :
    Mem.read (getU8 d) k n = (d.drop k).take n := by
  apply List.ext_getElem
  · simp [Mem.read]
    omega
  · intro i h1 h2
    have hi : i < n := by simpa [Mem.read] using h1
    simp [Mem.read, getU8, List.getElem?_eq_getElem (show k + i < d.length by omega)]

private theorem shift_read (p : Mem) (b k n : Nat) : (p.shift b).read k n = p.read (b + k) n := by
  simp [Mem.read, Mem.shift, Nat.add_assoc]

private theorem shift_flowBe16 (p : Mem) (b k : Nat) : flowBe16 (p.shift b) k = flowBe16 p (b + k) := by
  unfold flowBe16 Mem.shift
  rfl

private theorem shift_apply (p : Mem) (b k : Nat) : p.shift b k = p (b + k) := by
  rw [Mem.shift]

private theorem shift_shift (p : Mem) (b c : Nat) : (p.shift b).shift c = p.shift (b + c) := by
  funext i
  simp [Mem.shift, Nat.add_assoc]

section
variable (p : Mem) (b : Nat)

private theorem answer_readExtStep (seen : Bool) (h : FlowHeaders) :
    (readExtStep b seen h).answer p = flowExtStep (p.shift b) seen h := by
  unfold readExtStep flowExtStep
  simp only [Program.answer_ite, Program.answer_bind, Program.pure_eq, Program.answer_done,
    answer_readByte, answer_readBytes, answer_readBe16, shift_read, shift_flowBe16, Mem.shift]
  rfl

private theorem answer_readExt (count : Nat) (seen : Bool) (h : FlowHeaders) :
    (readExt b count seen h).answer p = flowExt (p.shift b) count seen h := by
  induction count generalizing seen h with
  | zero => rfl
  | succ count ih =>
    unfold readExt flowExt
    by_cases he : isFlowExt h.proto
    · rw [if_pos he, if_pos he, Program.answer_bind, answer_readExtStep]
      cases flowExtStep (p.shift b) seen h with
      | none => rfl
      | some r =>
        by_cases hf : r.2.first
        · simp only [hf, if_true]
          exact ih r.1 r.2
        · simp only [hf]
          rfl
    · rw [if_neg he, if_neg he]
      rfl

private theorem answer_readHeaders4 (n depth : Nat) :
    (readHeaders4 b n depth).answer p = flowHeaders4 (p.shift b) n depth := by
  unfold readHeaders4 flowHeaders4
  by_cases hn : n < 20
  · simp only [hn, if_true, true_or]
    rfl
  · simp only [hn, if_false, false_or, Program.answer_ite, Program.answer_bind, Program.pure_eq,
      Program.answer_done, answer_readByte, answer_readBytes, answer_readBe16, shift_read, shift_flowBe16, Mem.shift]

private theorem answer_readHeaders6 (n depth : Nat) :
    (readHeaders6 b n depth).answer p = flowHeaders6 (p.shift b) n depth := by
  unfold readHeaders6 flowHeaders6
  simp only [Program.answer_ite, Program.answer_bind, Program.pure_eq, Program.answer_done,
    answer_readByte, answer_readBytes, answer_readBe16, answer_readExt, shift_read, shift_flowBe16, Mem.shift]

private theorem answer_readHeaders (n depth : Nat) :
    (readHeaders b n depth).answer p = flowHeaders (p.shift b) n depth := by
  unfold readHeaders flowHeaders
  simp only [Program.answer_ite, Program.answer_bind, Program.pure_eq, Program.answer_done,
    answer_readByte, answer_readHeaders4, answer_readHeaders6]
  rfl

private theorem answer_readParseDepth {quoted : Nat → Nat → Reading (Option FlowPacket)}
    {quoted' : Mem → Nat → Option FlowPacket} (hq : ∀ c m, (quoted c m).answer p = quoted' (p.shift c) m)
    (n depth : Nat) : (readParseDepth quoted b n depth).answer p = flowParseDepth quoted' (p.shift b) n depth := by
  unfold readParseDepth flowParseDepth
  rw [Program.answer_bind, answer_readHeaders]
  cases flowHeaders (p.shift b) n depth with
  | none => rfl
  | some h =>
    simp only [Program.answer_ite, Program.answer_bind, Program.pure_eq, Program.answer_done, hq,
      answer_readByte, answer_readBytes, shift_read, shift_shift, shift_apply]
    -- the quoted packet, if it is one and its flow is known
    generalize Option.filter (fun q : FlowPacket => q.transport && (!q.fragmented || q.first)) _ = inner
    cases inner with
    | none => simp only [Program.answer_ite, Program.answer_bind, Program.answer_done, answer_readBytes]
    | some q => rfl

end

/-- **The program of the reads returns what the classifier returns.** -/
theorem answer_readParse (p : Mem) (n : Nat) : (readParse n).answer p = flowParse p n := by
  unfold readParse flowParse
  let quoted : Mem → Nat → Option FlowPacket := fun q m => flowParseDepth (fun _ _ => none) q m 1
  have hq : ∀ c m, (readParseDepth (fun _ _ => pure none) c m 1).answer p = quoted (p.shift c) m :=
    fun c m => answer_readParseDepth p c (fun _ _ => rfl) m 1
  have h0 : p.shift 0 = p := by
    funext i
    rw [Mem.shift, Nat.zero_add]
  rw [answer_readParseDepth p 0 hq n 0, h0]

/-! ### What the program reads -/

/-- The offsets of a packet of `n` bytes at offset `b`. -/
def Inside (b n k : Nat) : Prop := b ≤ k ∧ k < b + n

variable {b n : Nat}

private theorem asks_readByte {k : Nat} (hk : k < n) : (readByte (b + k)).Asks (Inside b n) fun _ => True :=
  ⟨⟨by omega, by omega⟩, fun _ => trivial⟩

private theorem asks_readBytes {k m : Nat} (hk : k + m ≤ n) :
    (readBytes (b + k) m).Asks (Inside b n) fun _ => True := by
  induction m generalizing k with
  | zero => trivial
  | succ m ih =>
    refine Program.Asks.bind (asks_readByte (by omega)) ?_
    intro a _
    rw [Nat.add_assoc]
    refine Program.Asks.bind (ih (by omega)) ?_
    intro l _
    trivial

private theorem asks_readBe16 {k : Nat} (hk : k + 2 ≤ n) : (readBe16 (b + k)).Asks (Inside b n) fun _ => True := by
  refine Program.Asks.bind (asks_readByte (by omega)) ?_
  intro hi _
  rw [Nat.add_assoc]
  refine Program.Asks.bind (asks_readByte (by omega)) ?_
  intro lo _
  trivial

theorem reads_byte {k : Nat} (hk : k < n) : (readByte k).Asks (· < n) fun _ => True :=
  ⟨hk, fun _ => trivial⟩

theorem reads_be16 {k : Nat} (hk : k + 1 < n) : (readBe16 k).Asks (· < n) fun _ => True :=
  ⟨Nat.lt_of_succ_lt hk, fun _ => ⟨hk, fun _ => trivial⟩⟩

theorem reads_bytes {k m : Nat} (hk : k + m ≤ n) : (readBytes k m).Asks (· < n) fun _ => True := by
  induction m generalizing k with
  | zero => trivial
  | succ m ih =>
    refine Program.Asks.bind (reads_byte (by omega)) fun a _ => ?_
    refine Program.Asks.bind (ih (by omega)) fun l _ => ?_
    trivial

/-- The headers end inside the packet. -/
def FlowHeaders.Fits (n : Nat) (h : FlowHeaders) : Prop := h.off ≤ h.len ∧ h.len ≤ n

/-- One extension header is read inside the packet, and the next one starts inside it. -/
private theorem asks_readExtStep {h : FlowHeaders} (hf : h.Fits n) (seen : Bool) :
    (readExtStep b seen h).Asks (Inside b n) fun r => ∀ x ∈ r, x.2.Fits n := by
  obtain ⟨hoff, hlen⟩ := hf
  unfold readExtStep
  split
  · simp
  · refine Program.Asks.bind (asks_readByte (by omega)) ?_
    intro next _
    split
    · split
      · simp
      · refine Program.Asks.bind (asks_readBe16 (by omega)) ?_
        intro frag _
        refine Program.Asks.bind (asks_readByte (by omega)) ?_
        intro reserved _
        split
        · simp
        · apply Program.Asks.bind (Q := fun _ => True)
          · split
            · exact asks_readBytes (by omega)
            · trivial
          intro ident _
          split
          · simp
          split
          · simp
          · simp [FlowHeaders.Fits]
            omega
    · refine Program.Asks.bind (asks_readByte (by omega)) ?_
      intro units _
      dsimp only
      generalize (if h.proto = 51 then (units.toNat + 2) * 4 else (units.toNat + 1) * 8) = len
      split
      · simp
      · simp [FlowHeaders.Fits]
        omega

private theorem asks_readExt (count : Nat) (seen : Bool) {h : FlowHeaders} (hf : h.Fits n) :
    (readExt b count seen h).Asks (Inside b n) fun r => ∀ x ∈ r, x.Fits n := by
  induction count generalizing seen h with
  | zero =>
    unfold readExt
    split
    · simp
    · simpa using hf
  | succ count ih =>
    unfold readExt
    split
    · apply Program.Asks.bind (asks_readExtStep hf seen)
      intro r hr
      cases r with
      | none => simp
      | some r =>
        have hfits : r.2.Fits n := hr r rfl
        dsimp only
        split
        · exact ih r.1 hfits
        · simpa using hfits
    · simpa using hf

private theorem asks_readHeaders4 (depth : Nat) :
    (readHeaders4 b n depth).Asks (Inside b n) fun r => ∀ x ∈ r, x.Fits n := by
  unfold readHeaders4
  split
  · simp
  · refine Program.Asks.bind (asks_readByte (by omega)) ?_
    intro ihl _
    dsimp only
    generalize (ihl &&& 15).toNat * 4 = off
    split
    · simp
    · refine Program.Asks.bind (asks_readBe16 (by omega)) ?_
      intro total _
      split
      · simp
      · refine Program.Asks.bind (asks_readByte (by omega)) ?_
        intro proto _
        refine Program.Asks.bind (asks_readBytes (by omega)) ?_
        intro src _
        refine Program.Asks.bind (asks_readBytes (by omega)) ?_
        intro dst _
        refine Program.Asks.bind (asks_readBe16 (by omega)) ?_
        intro frag _
        split
        · simp
        split
        · simp
        · refine Program.Asks.bind (asks_readBytes (by omega)) ?_
          intro ident _
          simp [FlowHeaders.Fits]
          omega

private theorem asks_readHeaders6 (depth : Nat) :
    (readHeaders6 b n depth).Asks (Inside b n) fun r => ∀ x ∈ r, x.Fits n := by
  unfold readHeaders6
  split
  · simp
  · refine Program.Asks.bind (asks_readBe16 (by omega)) ?_
    intro payload _
    dsimp only
    split
    · simp
    · refine Program.Asks.bind (asks_readByte (by omega)) ?_
      intro proto _
      refine Program.Asks.bind (asks_readBytes (by omega)) ?_
      intro src _
      refine Program.Asks.bind (asks_readBytes (by omega)) ?_
      intro dst _
      refine asks_readExt _ _ ?_
      constructor
      · dsimp only
        omega
      · dsimp only
        omega

private theorem asks_readHeaders (depth : Nat) :
    (readHeaders b n depth).Asks (Inside b n) fun r => ∀ x ∈ r, x.Fits n := by
  unfold readHeaders
  split
  · simp
  · refine Program.Asks.bind (asks_readByte (by omega)) ?_
    intro version _
    split
    · exact asks_readHeaders4 depth
    split
    · exact asks_readHeaders6 depth
    · simp

/-- The classifier reads inside the packet, if it does so in a packet quoted behind the headers. -/
private theorem asks_readParseDepth {quoted : Nat → Nat → Reading (Option FlowPacket)} (depth : Nat)
    (hq : ∀ c m, b ≤ c → c + m ≤ b + n → (quoted c m).Asks (Inside b n) fun _ => True) :
    (readParseDepth quoted b n depth).Asks (Inside b n) fun _ => True := by
  apply Program.Asks.bind (asks_readHeaders depth)
  intro r hr
  cases r with
  | none => trivial
  | some h =>
    obtain ⟨hoff, hlen⟩ := hr h rfl
    dsimp only
    split
    · trivial
    split
    · split
      · trivial
      · refine Program.Asks.bind (asks_readBytes (by omega)) ?_
        intro srcPort _
        refine Program.Asks.bind (asks_readBytes (by omega)) ?_
        intro dstPort _
        trivial
    split
    · rename_i hicmp
      refine Program.Asks.bind (asks_readByte (by omega)) ?_
      intro type _
      apply Program.Asks.bind (Q := fun _ => True)
      · split
        · exact hq _ _ (by omega) (by omega)
        · trivial
      intro inner _
      split
      · trivial
      split
      · refine Program.Asks.bind (asks_readBytes (by omega)) ?_
        intro srcPort _
        refine Program.Asks.bind (asks_readBytes (by omega)) ?_
        intro dstPort _
        trivial
      · trivial
    · trivial

/-- **The classifier reads only inside the packet**, whatever the bytes are. -/
theorem asks_readParse (n : Nat) : (readParse n).Asks (fun k => k < n) fun _ => True := by
  have h : (readParse n).Asks (Inside 0 n) fun _ => True := by
    apply asks_readParseDepth
    intro c m _ hm
    have hin : (readParseDepth (fun _ _ => pure none) c m 1).Asks (Inside c m) fun _ => True := by
      apply asks_readParseDepth
      intro d k _ _
      exact trivial
    apply hin.mono
    · rintro k ⟨_, hk⟩
      exact ⟨Nat.zero_le k, by omega⟩
    · exact fun _ h => h
  apply h.mono
  · rintro k ⟨_, hk⟩
    omega
  · exact fun _ h => h

end Tayga
