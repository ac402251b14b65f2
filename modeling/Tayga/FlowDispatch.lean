import Tayga.Addr

/-!
# The flow classifier

`flow_dispatch.h`: the flow hash by which packets are spread over the workers, and the key that identifies the
datagram of a fragment.  A packet is read through a pointer, here a function from offsets to bytes, and a length.
-/

namespace Tayga

/-- `struct flow_packet`. -/
structure FlowPacket where
  fragmentKey : List Byte
  flowHash : BitVec 32
  fragmentHash : BitVec 32
  fragmented : Bool
  first : Bool
  transport : Bool
deriving Repr, DecidableEq

/-- The bytes behind a pointer. -/
abbrev Mem := Nat → Byte

/-- The pointer moved forward. -/
def Mem.shift (p : Mem) (k : Nat) : Mem := fun i => p (k + i)

/-- `n` bytes copied from a pointer. -/
def Mem.read (p : Mem) (k n : Nat) : List Byte := (List.range n).map fun i => p (k + i)

/-- `flow_be16`. -/
def flowBe16 (p : Mem) (k : Nat) : BitVec 16 := p k ++ p (k + 1)

/-- `flow_hash_bytes`. -/
def flowHashBytes (l : List Byte) : BitVec 32 :=
  let h := l.foldl (fun h b => (h ^^^ b.setWidth 32) * 16777619#32) 2166136261#32
  let h := h ^^^ (h >>> 16)
  let h := h * 0x7feb352d#32
  h ^^^ (h >>> 15)

/-- `memcmp (a, b, n) <= 0` for two byte strings of equal length. -/
def memcmpLe : List Byte → List Byte → Bool
  | a :: l, b :: m => if a = b then memcmpLe l m else a.ult b
  | _, _ => true

/-! ### The headers -/

/-- What the walk over the network headers finds: the family, the end of the packet, the offset and protocol of the
transport header, the addresses padded to sixteen bytes, and the fragment fields. -/
structure FlowHeaders where
  family : Byte
  len : Nat
  off : Nat
  proto : Byte
  src : List Byte
  dst : List Byte
  fragmented : Bool
  first : Bool
  ident : List Byte
  keyProto : Byte
deriving Repr, DecidableEq

/-- The extension headers the walk goes through. -/
def isFlowExt (proto : Byte) : Bool := proto = 0 || proto = 43 || proto = 60 || proto = 51 || proto = 44

/-- One extension header: the headers after it, with whether a fragment header was seen. -/
def flowExtStep (p : Mem) (seenFragment : Bool) (h : FlowHeaders) : Option (Bool × FlowHeaders) :=
  if 296 < h.off ∨ h.len < h.off + 2 then none
  else
    let next := p h.off
    if h.proto = 44 then
      if seenFragment ∨ h.len < h.off + 8 then none
      else
        let frag := flowBe16 p (h.off + 2)
        if p (h.off + 1) ≠ 0 ∨ frag &&& 6 ≠ 0 then none
        else
          let fragmented : Bool := frag &&& 0xfff9 ≠ 0
          if fragmented ∧ frag &&& 1 ≠ 0 ∧ (h.len - h.off - 8) % 8 ≠ 0 then none
          else if h.len - h.off < 8 ∨ 296 < h.off + 8 then none
          else some (true, { h with
            off := h.off + 8
            proto := next
            fragmented := fragmented
            first := frag &&& 0xfff8 = 0
            ident := if fragmented then p.read (h.off + 4) 4 else h.ident
            keyProto := if fragmented then next else h.keyProto })
    else
      let len := if h.proto = 51 then ((p (h.off + 1)).toNat + 2) * 4 else ((p (h.off + 1)).toNat + 1) * 8
      if h.len - h.off < len ∨ 296 < h.off + len then none
      else some (seenFragment, { h with
        off := h.off + len
        proto := next })

/-- The loop over the extension headers, at most `count` of them; it ends behind the fragment header of a fragment
that is not the first. -/
def flowExt (p : Mem) : Nat → Bool → FlowHeaders → Option FlowHeaders
  | 0, _, h => if isFlowExt h.proto then none else some h
  | count + 1, seenFragment, h =>
    if isFlowExt h.proto then
      match flowExtStep p seenFragment h with
      | none => none
      | some (seenFragment, h) => if h.first then flowExt p count seenFragment h else some h
    else some h

/-- The IPv4 header. -/
def flowHeaders4 (p : Mem) (n depth : Nat) : Option FlowHeaders :=
  let off := (p 0 &&& 15).toNat * 4
  let total := (flowBe16 p 2).toNat
  if n < 20 ∨ off < 20 ∨ n < off then none
  else if total < off ∨ (depth = 0 ∧ total ≠ n) then none
  else
    let n := min total n
    let frag := flowBe16 p 6
    if frag &&& 0x8000 ≠ 0 then none
    else
      let fragmented : Bool := frag &&& 0x3fff ≠ 0
      if fragmented ∧ (frag &&& 0x4000 ≠ 0 ∨ (frag &&& 0x2000 ≠ 0 ∧ (n - off) % 8 ≠ 0)) then none
      else some
        { family := 4
          len := n
          off := off
          proto := p 9
          src := p.read 12 4 ++ List.replicate 12 0
          dst := p.read 16 4 ++ List.replicate 12 0
          fragmented := fragmented
          first := frag &&& 0x1fff = 0
          ident := p.read 4 2 ++ [0, 0]
          keyProto := p 9 }

/-- The IPv6 header and its extension headers. -/
def flowHeaders6 (p : Mem) (n depth : Nat) : Option FlowHeaders :=
  let total := 40 + (flowBe16 p 4).toNat
  if n < 40 then none
  else if flowBe16 p 4 = 0 ∨ (depth = 0 ∧ total ≠ n) then none
  else flowExt p 8 false
    { family := 6
      len := min total n
      off := 40
      proto := p 6
      src := p.read 8 16
      dst := p.read 24 16
      fragmented := false
      first := true
      ident := [0, 0, 0, 0]
      keyProto := 0 }

/-- The network headers of either family. -/
def flowHeaders (p : Mem) (n depth : Nat) : Option FlowHeaders :=
  if n = 0 then none
  else if p 0 >>> 4 = 4 then flowHeaders4 p n depth
  else if p 0 >>> 4 = 6 then flowHeaders6 p n depth
  else none

/-! ### The key and the hash -/

/-- `fragment_key`. -/
def FlowHeaders.fragmentKey (h : FlowHeaders) : List Byte :=
  if h.fragmented then [h.family, h.keyProto] ++ h.src ++ h.dst ++ h.ident ++ [0, 0] else List.replicate 40 0

/-- The result for these headers, the flow hash and the transport flag still to be filled in. -/
def FlowHeaders.packet (h : FlowHeaders) : FlowPacket :=
  { fragmentKey := h.fragmentKey
    flowHash := 0
    fragmentHash := if h.fragmented then flowHashBytes h.fragmentKey else 0
    fragmented := h.fragmented
    first := h.first
    transport := false }

/-- The hash of the flow key: the two endpoints in the order of their bytes. -/
def flowKeyHash (h : FlowHeaders) (srcPort dstPort : List Byte) : BitVec 32 :=
  let src := h.src ++ srcPort
  let dst := h.dst ++ dstPort
  flowHashBytes ([h.family, h.proto] ++ if memcmpLe src dst then src ++ dst else dst ++ src)

/-- The protocols with two port numbers in front. -/
def hasPorts (proto : Byte) : Bool := proto = 6 || proto = 17 || proto = 33 || proto = 132 || proto = 136

/-- An ICMP message that quotes the packet it is about. -/
def quotesPacket (proto type : Byte) : Bool :=
  (proto = 1 && (type = 3 || type = 11 || type = 12)) || (proto = 58 && type.ult 128)

/-- An echo request or reply. -/
def isFlowEcho (proto type : Byte) : Bool :=
  (proto = 1 && (type = 0 || type = 8)) || (proto = 58 && (type = 128 || type = 129))

/-- `flow_parse_depth`; `quoted` classifies the packet an ICMP error quotes. -/
def flowParseDepth (quoted : Mem → Nat → Option FlowPacket) (p : Mem) (n depth : Nat) : Option FlowPacket :=
  match flowHeaders p n depth with
  | none => none
  | some h =>
    if h.fragmented ∧ ¬h.first then some h.packet
    else if hasPorts h.proto then
      if h.len < h.off + 4 then none
      else some { h.packet with
        flowHash := flowKeyHash h (p.read h.off 2) (p.read (h.off + 2) 2)
        transport := true }
    else if (h.proto = 1 ∨ h.proto = 58) ∧ h.off + 8 ≤ h.len then
      let type := p h.off
      let inner := if depth = 0 ∧ quotesPacket h.proto type then quoted (p.shift (h.off + 8)) (h.len - h.off - 8)
          else none
      match inner.filter fun q => q.transport && (!q.fragmented || q.first) with
      | some q => some { h.packet with
          flowHash := q.flowHash
          transport := true }
      | none =>
        if isFlowEcho h.proto type then some { h.packet with
          flowHash := flowKeyHash h (p.read (h.off + 4) 2) (p.read (h.off + 4) 2)
          transport := true }
        else some { h.packet with flowHash := flowKeyHash h [0, 0] [0, 0] }
    else some { h.packet with flowHash := flowKeyHash h [0, 0] [0, 0] }

/-- `flow_parse`: a quoted packet is classified, one quoted inside it is not. -/
def flowParse (p : Mem) (n : Nat) : Option FlowPacket :=
  flowParseDepth (fun q m => flowParseDepth (fun _ _ => none) q m 1) p n 0

/-- A packet in a buffer as a pointer sees it. -/
def Mem.ofList (l : List Byte) : Mem := fun i => l.getD i 0

end Tayga
