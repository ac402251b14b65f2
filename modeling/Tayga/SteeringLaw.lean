import Mathlib
import Tayga.Codec
import Tayga.Steering
import Tayga.Written

/-!
# The steering program

What the eBPF program does with a packet: it reads off a key, the addresses and perhaps the ports, hashes the key to a
bucket, and looks up the owner of the bucket or enters one.  The instructions are cut into blocks that touch no map,
each with the state it leads to, and the jumps between the blocks follow the decisions of `steeringKey`.
-/

namespace Tayga

open Ebpf

/-! ### Numbers in memory -/

/-- The bytes of a number, as the machine stores them. -/
def storeRaw (e : Endian) (n : Nat) (x : BitVec 64) : List Byte :=
  let d := (List.range n).map fun i => (x >>> (8 * i)).setWidth 8
  match e with
  | .big => d.reverse
  | .little => d

private theorem loadRaw_reverse (d : List Byte) : loadRaw .big d.reverse = loadRaw .little d := by
  show d.reverse.foldl (fun n b => n * 256 + b.toNat) 0 = d.foldr (fun b n => b.toNat + 256 * n) 0
  rw [List.foldl_reverse]
  refine congrArg (fun f : Byte → Nat → Nat => d.foldr f 0) (funext fun b => funext fun n => ?_)
  omega

private theorem loadRaw_bytes (n : Nat) (x : BitVec 64) :
    loadRaw .little ((List.range n).map fun i => (x >>> (8 * i)).setWidth 8) = x.toNat % 2 ^ (8 * n) := by
  induction n generalizing x with
  | zero => exact (Nat.mod_one _).symm
  | succ n ih =>
    have hbytes : (List.range n).map (fun i => (x >>> (8 * (i + 1))).setWidth 8) =
        (List.range n).map fun i => ((x >>> 8) >>> (8 * i)).setWidth 8 :=
      List.map_congr_left fun i _ => by rw [← BitVec.shiftRight_add, Nat.mul_succ, Nat.add_comm]
    have hnext := ih (x >>> 8)
    rw [BitVec.toNat_ushiftRight, Nat.shiftRight_eq_div_pow] at hnext
    rw [List.range_succ_eq_map, List.map_cons, List.map_map]
    show ((x >>> (8 * 0)).setWidth 8).toNat + 256 * loadRaw .little ((List.range n).map _) = _
    rw [show ((fun i => (x >>> (8 * i)).setWidth 8) ∘ Nat.succ) = fun i => (x >>> (8 * (i + 1))).setWidth 8 from rfl,
      hbytes, hnext]
    rw [show 2 ^ (8 * (n + 1)) = 2 ^ 8 * 2 ^ (8 * n) by rw [← Nat.pow_add]; congr 1; omega, Nat.mod_mul]
    rw [BitVec.toNat_setWidth]
    rfl

/-- The byte order of the machine. -/
def Endian.order (e : Endian) : Order where
  load := loadRaw e
  store := storeRaw e
  length_store n x := by cases e <;> simp [storeRaw]
  load_store n x := by
    cases e with
    | big => exact (loadRaw_reverse _).trans (loadRaw_bytes n x)
    | little => exact loadRaw_bytes n x

section

variable {d : List Byte} {i : Nat}

private theorem getU8_eq (h : i < d.length) : getU8 d i = d[i] := by
  rw [getU8, List.getD_eq_getElem?_getD, List.getElem?_eq_getElem h]
  rfl

private theorem take_two_drop (h : i + 2 ≤ d.length) : (d.drop i).take 2 = [getU8 d i, getU8 d (i + 1)] := by
  rw [List.drop_eq_getElem_cons (by omega), List.drop_eq_getElem_cons (by omega), getU8_eq, getU8_eq]
  rfl

private theorem take_four_drop (h : i + 4 ≤ d.length) :
    (d.drop i).take 4 = [getU8 d i, getU8 d (i + 1), getU8 d (i + 2), getU8 d (i + 3)] := by
  rw [show 4 = 2 + 2 from rfl, List.take_add, List.drop_drop, take_two_drop (by omega), take_two_drop (by omega)]
  rfl

/-- The machine loads four bytes. -/
private theorem loadRaw_take_four (e : Endian) (h : i + 4 ≤ d.length) :
    loadRaw e ((d.drop i).take 4) = (rawWord e (getBe32 d i)).toNat := by
  rw [take_four_drop h, getBe32]
  generalize getU8 d i = b0, getU8 d (i + 1) = b1, getU8 d (i + 2) = b2, getU8 d (i + 3) = b3
  cases e with
  | big =>
    rw [rawWord, toNat_ofBytes4]
    simp [loadRaw]
    omega
  | little =>
    rw [rawWord, byte4_ofBytes4_zero, byte4_ofBytes4_one, byte4_ofBytes4_two, byte4_ofBytes4_three, toNat_ofBytes4]
    simp [loadRaw]
    omega

/-- The machine loads two bytes. -/
private theorem loadRaw_take_two (e : Endian) (h : i + 2 ≤ d.length) :
    loadRaw e ((d.drop i).take 2) = (htons e (getBe16 d i)).toNat := by
  rw [take_two_drop h, getBe16]
  generalize getU8 d i = b0, getU8 d (i + 1) = b1
  have hword : (b0 ++ b1 : BitVec 16).toNat = b0.toNat * 256 + b1.toNat := by
    rw [BitVec.toNat_append, ← Nat.shiftLeft_add_eq_or_of_lt b1.isLt, Nat.shiftLeft_eq]
  cases e with
  | big =>
    rw [htons, hword]
    simp [loadRaw]
  | little =>
    rw [htons, OnesComplement.toNat_swap, hword]
    simp [loadRaw]
    omega

end

/-! ### Keys and buckets -/

/-- What the queue of a packet depends on: the family and the addresses, and the ports where they count. -/
inductive SteeringKey where
  | ip4 (src dest : In4) (ports : Option (BitVec 32))
  | ip6 (src dest : In6) (ports : Option (BitVec 32))
deriving Repr, DecidableEq

/-- The source port and the destination port, if the packet has them. -/
def portsAt (d : List Byte) (offset : Nat) : Option (BitVec 32) :=
  if offset + 4 ≤ d.length then some (getBe32 d offset) else none

/-- The ports of a TCP or UDP packet that is no fragment. -/
def flowPorts4 (d : List Byte) : Option (BitVec 32) :=
  let h := Ip4.ofBytes d
  if h.flagsOffset &&& (ip4FMask ||| ip4FMf) = 0 ∧ (h.proto = 6 ∨ h.proto = 17) then
    portsAt d ((h.verIhl &&& 0x0f).toNat * 4)
  else none

/-- The ports of a packet whose fixed header is followed by a TCP or UDP header. -/
def flowPorts6 (d : List Byte) : Option (BitVec 32) :=
  let h := Ip6.ofBytes d
  if h.nextHeader = 6 ∨ h.nextHeader = 17 then portsAt d 40 else none

/-- The key of a packet, if it has a complete header. -/
def steeringKey (flowAware : Bool) (d : List Byte) : Option SteeringKey :=
  if d.length < 20 then none
  else if version d = 6 then
    let h := Ip6.ofBytes d
    if d.length < 40 then none else some (.ip6 h.src h.dest (if flowAware then flowPorts6 d else none))
  else if version d = 4 then
    let h := Ip4.ofBytes d
    some (.ip4 h.src h.dest (if flowAware then flowPorts4 d else none))
  else none

namespace SteeringKey

/-- The index of the family among the admission counters. -/
def family : SteeringKey → Nat
  | .ip4 .. => 0
  | .ip6 .. => 1

/-- The low half of a register. -/
def low (h : BitVec 64) : BitVec 64 := (h.setWidth 32).setWidth 64

/-- One more word of the hash. -/
def addWord (h : BitVec 64) (w : BitVec 32) : BitVec 64 := (low h ^^^ w.setWidth 64) * 16777619

def hashPorts (e : Endian) (h : BitVec 64) : Option (BitVec 32) → BitVec 64
  | none => h
  | some ports => SteeringKey.addWord h (rawWord e ports)

def hash (e : Endian) : SteeringKey → BitVec 64
  | .ip4 src dest ports => hashPorts e ((rawWord e src ^^^ rawWord e dest).setWidth 64 ^^^ 4) ports
  | .ip6 src dest ports =>
    hashPorts e ([0, 1, 2, 3].foldl (fun h i => SteeringKey.addWord h
      (rawWord e (word6 src i) ^^^ rawWord e (word6 dest i))) 6) ports

/-- The hash is mixed and cut to 16 bits. -/
def mix (h : BitVec 64) : BitVec 64 :=
  let h := (low h ^^^ low (h >>> 16)) * 0x45d9f3b
  (low h ^^^ low (h >>> 16)) &&& 65535

def bucket (e : Endian) (k : SteeringKey) : Nat := (mix (k.hash e)).toNat

/-- The key of the other direction; the ports stay as they are. -/
def reverse : SteeringKey → SteeringKey
  | .ip4 src dest ports => .ip4 dest src ports
  | .ip6 src dest ports => .ip6 dest src ports

/-- **Both directions between two addresses are in one bucket.** -/
theorem bucket_reverse (e : Endian) (k : SteeringKey) : k.reverse.bucket e = k.bucket e := by
  have hhash : k.reverse.hash e = k.hash e := by
    cases k with
    | ip4 src dest ports => rw [reverse, hash, hash, BitVec.xor_comm (rawWord e dest)]
    | ip6 src dest ports => simp only [reverse, hash, BitVec.xor_comm]
  rw [bucket, bucket, hhash]

end SteeringKey

/-- The owner of a bucket is the number of its queue, counted from one. -/
def queueOf (owner : BitVec 32) : Halt := .exit (BitVec.ofNat 64 (owner.toNat - 1))

/-- The queue of a bucket: its owner, or the next one in turn if it has none and nobody else is faster. -/
def assign (queues buckets counter family bucket : Nat) : Invocation Halt :=
  .call (.load buckets bucket) fun owner =>
    if owner ≠ 0 then .done (queueOf owner)
    else .call (.fetchAdd counter family 1) fun n =>
      let candidate := BitVec.ofNat 32 (n.toNat % queues + 1)
      .call (.cmpxchg buckets bucket 0 candidate) fun old =>
        .done (queueOf (if old = 0 then candidate else old))

/-- What the steering program does with a packet. -/
def steer (e : Endian) (queues : Nat) (flowAware : Bool) (buckets counter : Nat) (d : List Byte) : Invocation Halt :=
  match steeringKey flowAware d with
  | none => .done (.exit 0)
  | some k => assign queues buckets counter k.family (k.bucket e)

/-! ### Blocks -/

/-- `len` bytes of the packet from offset `r2` on, to the bottom of the buffer. -/
def loadBytes (len : Int) : List Insn := [movr 3 10, alui .add 3 (-64), movi 4 len, call skbLoadBytes]

/-- One more word of the hash. -/
def foldWord : List Insn := [alur .xor 7 1, alui .mul 7 16777619]

def ports4 (e : Endian) : List Insn :=
  [ldx .h 1 10 (-58), alui .and 1 (htons e 0x3fff).toNat, jne 1 15 0, ldx .b 1 10 (-55), jeq 1 1 6, jne 1 12 17,
    ldx .b 2 10 (-64), alui .and 2 0x0f, alui .lsh 2 2, movr 1 6] ++
  loadBytes 4 ++ [jne 0 3 0, ldx .w 1 10 (-64)] ++ foldWord

def ports6 : List Insn :=
  [jeq 9 1 6, jne 9 10 17, movr 1 6, movi 2 40] ++ loadBytes 4 ++ [jne 0 3 0, ldx .w 1 10 (-64)] ++ foldWord

def addresses4 : List Insn := [movi 9 0, ldx .w 7 10 (-52), ldx .w 1 10 (-48), alur .xor 7 1, alui .xor 7 4]

def addresses6 : List Insn :=
  movi 7 6 :: [0, 1, 2, 3].flatMap fun i =>
    [ldx .w 1 10 (-64 + 4 * i), ldx .w 2 10 (-48 + 4 * i), alur .xor 1 2] ++ foldWord

def mixHash : List Insn :=
  [movr 1 7, alui .rsh 1 16, alur .xor 7 1, alui .mul 7 0x45d9f3b, movr 1 7, alui .rsh 1 16, alur .xor 7 1,
    alui .and 7 65535]

def lookupMap (fd : Nat) (key : Nat) (off : Int) : List Insn :=
  stxw 10 key off :: loadmap 1 fd ++ [movr 2 10, alui .add 2 off, call mapLookupElem]

def assignBucket (queues buckets counter : Nat) : List Insn :=
  mixHash ++ lookupMap buckets 7 (-4) ++ [jeq 0 22 0, movr 8 0, ldx .w 7 8 0, jne 7 16 0] ++
  lookupMap counter 9 (-8) ++ [jeq 0 12 0, movi 1 1, atomicw 0 1 fetchAdd, alui .mod 1 queues, alui .add 1 1, movi 0 0,
    atomicw 8 1 cmpxchg, jne 0 1 0, movr 0 1, movr 7 0, movr 0 7, alui .sub 0 1, exit, movi 0 0, exit]

variable {env : Env} {code : List Insn} {pc : Nat} {f : Frame} {r0 r1 r2 r3 r4 r5 r6 r7 r8 r9 : Value}

private theorem steps_mixHash (h : BitVec 64) :
    steps env 0 mixHash ⟨pc, [r0, r1, r2, r3, r4, r5, r6, .scalar h, r8, r9, .stack 0], f⟩ =
      some ⟨pc + 8, [r0, .scalar (((SteeringKey.low h ^^^ SteeringKey.low (h >>> 16)) * 0x45d9f3b) >>> 16), r2, r3, r4,
        r5, r6, .scalar (SteeringKey.mix h), r8, r9, .stack 0], f⟩ := by
  simp [mixHash, movr, alui, alur, SteeringKey.low, SteeringKey.mix]

private theorem load_store_four {off : Int} {x : BitVec 64} (hlow : -512 ≤ off) (hhigh : off + 4 ≤ 0)
    (hx : x.toNat < 65536) :
    (f.write off (env.order.store 4 x)).load env.order off 4 = some x := by
  refine Frame.load_store hlow hhigh (Nat.lt_of_lt_of_le hx ?_)
  decide

private theorem steps_lookupBucket {fd : Nat} {x : BitVec 64} (hx : x.toNat < 65536) (hfd : x.toNat < env.entries fd) :
    steps env 0 (lookupMap fd 7 (-4)) ⟨pc, [r0, r1, r2, r3, r4, r5, r6, .scalar x, r8, r9, .stack 0], f⟩ =
      some ⟨pc + 6, [.mapValue fd x.toNat, .uninit, .uninit, .uninit, .uninit, .uninit, r6, .scalar x, r8, r9,
        .stack 0], f.write (-4) (env.order.store 4 x)⟩ := by
  have hcall : ¬mapLookupElem = skbLoadBytes := by decide
  have hload : (f.write (-4) (env.order.store 4 x)).load env.order (-4) 4 = some x :=
    load_store_four (by decide) (by decide) hx
  simp [lookupMap, loadmap, stxw, movr, alui, call, hcall, callMapLookupElem, hload, hfd]

private theorem steps_lookupCounter {fd : Nat} {x : BitVec 64} (hx : x.toNat < 65536) (hfd : x.toNat < env.entries fd) :
    steps env 0 (lookupMap fd 9 (-8)) ⟨pc, [r0, r1, r2, r3, r4, r5, r6, r7, r8, .scalar x, .stack 0], f⟩ =
      some ⟨pc + 6, [.mapValue fd x.toNat, .uninit, .uninit, .uninit, .uninit, .uninit, r6, r7, r8, .scalar x,
        .stack 0], f.write (-8) (env.order.store 4 x)⟩ := by
  have hcall : ¬mapLookupElem = skbLoadBytes := by decide
  have hload : (f.write (-8) (env.order.store 4 x)).load env.order (-8) 4 = some x :=
    load_store_four (by decide) (by decide) hx
  simp [lookupMap, loadmap, stxw, movr, alui, call, hcall, callMapLookupElem, hload, hfd]

private theorem does_queueOf {queues buckets counter : Nat} {owner : BitVec 32} (howner : owner ≠ 0)
    (h : At code pc (assignBucket queues buckets counter)) :
    Does env code ⟨pc + 34, [r0, r1, r2, r3, r4, r5, r6, .scalar (owner.setWidth 64), r8, r9, .stack 0], f⟩
      (.done (queueOf owner)) := by
  have hpos : 0 < owner.toNat := by
    refine Nat.pos_of_ne_zero fun hzero => howner ?_
    exact BitVec.eq_of_toNat_eq hzero
  have hqueue : owner.setWidth 64 - 1#64 = BitVec.ofNat 64 (owner.toNat - 1) := by
    apply BitVec.eq_of_toNat_eq
    simp only [BitVec.toNat_sub, BitVec.toNat_setWidth, BitVec.toNat_ofNat]
    omega
  refine Does.block (k := 0) (h.sub 34 2) rfl
    (t := ⟨pc + 36, [.scalar (BitVec.ofNat 64 (owner.toNat - 1)), r1, r2, r3, r4, r5, r6,
      .scalar (owner.setWidth 64), r8, r9, .stack 0], f⟩) ?_ ?_
  · show steps env 0 [movr 0 7, alui .sub 0 1] _ = _
    simp [movr, alui, hqueue]
  · exact .exit (h.get (k := 36) rfl) rfl rfl

theorem toNat_mix_lt (h : BitVec 64) : (SteeringKey.mix h).toNat < 65536 := by
  unfold SteeringKey.mix
  rw [BitVec.toNat_and]
  exact Nat.lt_of_le_of_lt Nat.and_le_right (by decide)

/-- A queue, counted from one. -/
theorem toNat_candidate {queues : Nat} (hqueues : 0 < queues) (hmax : queues ≤ 128) (n : Nat) :
    (BitVec.ofNat 32 (n % queues + 1)).toNat = n % queues + 1 := by
  have := Nat.mod_lt n hqueues
  rw [BitVec.toNat_ofNat]
  omega

theorem candidate_ne_zero {queues : Nat} (hqueues : 0 < queues) (hmax : queues ≤ 128) (n : Nat) :
    BitVec.ofNat 32 (n % queues + 1) ≠ 0 := by
  intro hzero
  have hcandidate := toNat_candidate hqueues hmax n
  rw [hzero] at hcandidate
  cases hcandidate

/-- The next queue in turn. -/
private theorem mod_queues {queues : Nat} (hqueues : 0 < queues) (hmax : queues ≤ 128) (n : BitVec 32) :
    AluOp.eval (n.setWidth 64) (BitVec.ofInt 64 queues) .mod + 1 =
      (BitVec.ofNat 32 (n.toNat % queues + 1)).setWidth 64 := by
  have hlt := Nat.mod_lt n.toNat hqueues
  have hnat : (BitVec.ofNat 64 queues).toNat = queues := by
    rw [BitVec.toNat_ofNat]
    omega
  have hne : BitVec.ofNat 64 queues ≠ 0 := by
    intro h
    rw [h] at hnat
    exact absurd hnat (Nat.ne_of_lt hqueues)
  apply BitVec.eq_of_toNat_eq
  rw [BitVec.ofInt_natCast, AluOp.eval, if_neg hne, BitVec.toNat_add, BitVec.toNat_umod, hnat, BitVec.toNat_setWidth,
    BitVec.toNat_setWidth, toNat_candidate hqueues hmax]
  have := n.isLt
  rw [Nat.mod_eq_of_lt (show n.toNat < 2 ^ 64 by omega), show (1 : BitVec 64).toNat = 1 from rfl]

/-- **The owner of the bucket of a hash is looked up, or entered.** -/
theorem does_assign {queues buckets counter family : Nat} (hqueues : 0 < queues) (hmax : queues ≤ 128)
    (hfamily : family ≤ 1) (hbuckets : env.entries buckets = 65536) (hcounter : env.entries counter = 2)
    (h : At code pc (assignBucket queues buckets counter)) (x : BitVec 64) :
    Does env code ⟨pc, [r0, r1, r2, r3, r4, r5, r6, .scalar x, r8, .scalar (BitVec.ofNat 64 family), .stack 0], f⟩
      (assign queues buckets counter family (SteeringKey.mix x).toNat) := by
  have hlt := toNat_mix_lt x
  have hfam : (BitVec.ofNat 64 family).toNat = family := by
    rw [BitVec.toNat_ofNat]
    omega
  refine Does.block (k := 0) (h.sub 0 8) rfl (steps_mixHash x) ?_
  refine Does.block (k := 0) (h.sub 8 6) rfl (steps_lookupBucket hlt (by omega)) ?_
  generalize f.write _ _ = f, (SteeringKey.mix x).toNat = bucket
  refine Does.block (k := 0) (h.sub 14 2) rfl (t := ⟨pc + 16, [.mapValue buckets bucket, .uninit, .uninit, .uninit,
    .uninit, .uninit, r6, .scalar (SteeringKey.mix x), .mapValue buckets bucket, .scalar (BitVec.ofNat 64 family),
    .stack 0], f⟩) ?_ ?_
  · show steps env 0 [jeq 0 22 0, movr 8 0] _ = _
    simp [jeq, movr]
  refine Does.load (h.get (k := 16) rfl) rfl rfl rfl (by decide) fun owner => ?_
  refine .jne (decide (owner = 0)) (h.get (k := 17) rfl) rfl rfl (Value.eqImm_setWidth owner) ?_
  by_cases howner : owner = 0
  · rw [if_neg (not_not.2 howner), decide_eq_true howner]
    refine Does.block (k := 0) (h.sub 18 6) rfl (steps_lookupCounter (by omega) (by omega)) ?_
    rw [hfam]
    generalize f.write _ _ = f
    refine Does.block (k := 0) (h.sub 24 2) rfl (t := ⟨pc + 26, [.mapValue counter family, .scalar 1, .uninit,
      .uninit, .uninit, .uninit, r6, .scalar (owner.setWidth 64), .mapValue buckets bucket,
      .scalar (BitVec.ofNat 64 family), .stack 0], f⟩) ?_ ?_
    · show steps env 0 [jeq 0 12 0, movi 1 1] _ = _
      simp [jeq, movi]
    refine Does.fetchAdd (h.get (k := 26) rfl) rfl rfl rfl rfl rfl (by decide) fun n => ?_
    have hcandidate := candidate_ne_zero hqueues hmax n.toNat
    have hmod := mod_queues hqueues hmax n
    generalize BitVec.ofNat 32 (n.toNat % queues + 1) = candidate at *
    refine Does.block (k := 0) (h.sub 27 3) rfl (t := ⟨pc + 30, [.scalar 0, .scalar (candidate.setWidth 64), .uninit,
      .uninit, .uninit, .uninit, r6, .scalar (owner.setWidth 64), .mapValue buckets bucket,
      .scalar (BitVec.ofNat 64 family), .stack 0], f⟩) ?_ ?_
    · show steps env 0 [alui .mod 1 queues, alui .add 1 1, movi 0 0] _ = _
      rw [← hmod]
      simp [alui, movi, atomicw, fetchAdd]
    refine Does.cmpxchg (h.get (k := 30) rfl) rfl rfl rfl rfl rfl rfl fun old => ?_
    refine .jne (decide (old = 0)) (h.get (k := 31) rfl) rfl rfl (Value.eqImm_setWidth old) ?_
    by_cases hold : old = 0
    · rw [if_pos hold, decide_eq_true hold]
      refine .alu64 (h.get (k := 32) rfl) rfl rfl (by decide) ?_
      exact .alu64 (h.get (k := 33) rfl) rfl rfl (by decide) (does_queueOf hcandidate h)
    · rw [if_neg hold, decide_eq_false hold]
      exact .alu64 (h.get (k := 33) rfl) rfl rfl (by decide) (does_queueOf hold h)
  · rw [if_pos howner, decide_eq_false howner]
    exact does_queueOf howner h

/-! ### Reading the packet -/

variable {p : Invocation Halt} {d : List Byte} {e : Endian}

/-- Bytes of the packet are brought to the stack, or the jump behind the call is taken. -/
private theorem does_loadBytes {len o : Nat} {off : BitVec 64} (h : At code pc (loadBytes len ++ [jne 0 o 0]))
    (hpos : 0 < len) (hlen : len ≤ 64)
    (hfit : off.toNat + len ≤ env.packet.length → Does env code ⟨pc + 5, [.scalar 0, .uninit, .uninit, .uninit, .uninit,
      .uninit, r6, r7, r8, r9, .stack 0], f.write (-64) ((env.packet.drop off.toNat).take len)⟩ p)
    (hmiss : env.packet.length < off.toNat + len → ∀ r0 f, Does env code ⟨pc + 5 + o, [r0, .uninit, .uninit, .uninit,
      .uninit, .uninit, r6, r7, r8, r9, .stack 0], f⟩ p) :
    Does env code ⟨pc, [r0, .ctx, .scalar off, r3, r4, r5, r6, r7, r8, r9, .stack 0], f⟩ p := by
  have hnat : (BitVec.ofNat 64 len).toNat = len := by
    rw [BitVec.toNat_ofNat]
    omega
  have hcall (r : BitVec 64) (f' : Frame) (hr : callSkbLoadBytes env ⟨pc + 3, [r0, .ctx, .scalar off, .stack (-64),
      .scalar (BitVec.ofNat 64 len), r5, r6, r7, r8, r9, .stack 0], f⟩ = some ⟨pc + 4, [.scalar r, .uninit, .uninit,
      .uninit, .uninit, .uninit, r6, r7, r8, r9, .stack 0], f'⟩) :
      steps env 0 (loadBytes len) ⟨pc, [r0, .ctx, .scalar off, r3, r4, r5, r6, r7, r8, r9, .stack 0], f⟩ =
        some ⟨pc + 4, [.scalar r, .uninit, .uninit, .uninit, .uninit, .uninit, r6, r7, r8, r9, .stack 0], f'⟩ := by
    simp [loadBytes, movr, alui, movi, call]
    simp [hr]
  have hcond : -512 ≤ (-64 : Int) ∧ -64 + ((BitVec.ofNat 64 len).toNat : Int) ≤ 0 ∧
      0 < (BitVec.ofNat 64 len).toNat := by
    omega
  have hloaded : At code pc (loadBytes len) := h.sub 0 4
  by_cases hf : off.toNat + len ≤ env.packet.length
  · refine Does.block (k := 0) hloaded rfl
      (hcall 0 (f.write (-64) ((env.packet.drop off.toNat).take len)) ?_) ?_
    · show (if _ then if off.toNat + (BitVec.ofNat 64 len).toNat ≤ _ then _ else _ else _) = _
      rw [if_pos hcond, if_pos (by rwa [hnat]), hnat]
      rfl
    · exact .jne true (h.get (k := 4) rfl) rfl rfl rfl (hfit hf)
  · refine Does.block (k := 0) hloaded rfl
      (hcall (BitVec.ofInt 64 (-14)) (f.write (-64) (List.replicate (BitVec.ofNat 64 len).toNat 0)) ?_) ?_
    · show (if _ then if off.toNat + (BitVec.ofNat 64 len).toNat ≤ _ then _ else _ else _) = _
      rw [if_pos hcond, if_neg (by rwa [hnat])]
      rfl
    · exact .jne false (h.get (k := 4) rfl) rfl rfl rfl (hmiss (by omega) _ _)

/-- The bytes of the packet from `k` on that are on the stack. -/
def Loaded (e : Endian) (d : List Byte) (f : Frame) (k len : Nat) : Prop :=
  ∀ (off : Int) (i n : Nat), off = -64 + i → i + n ≤ len →
    f.load e.order off n = some (BitVec.ofNat 64 (loadRaw e ((d.drop (k + i)).take n)))

namespace Loaded

variable {k len : Nat}

theorem write (hlen : len ≤ 64) (hd : k + len ≤ d.length) : Loaded e d (f.write (-64) ((d.drop k).take len)) k len := by
  intro off i n hoff hn
  have hlength : ((d.drop k).take len).length = len := by
    rw [List.length_take, List.length_drop]
    omega
  rw [Frame.load_write i (by omega) (by omega) hoff (by omega), List.drop_take, List.drop_drop, List.take_take,
    Nat.min_eq_left (by omega)]
  rfl

theorem byte (h : Loaded e d f k len) {i : Nat} (hi : i + 1 ≤ len) (hd : k + len ≤ d.length) {off : Int}
    (hoff : off = -64 + i) : f.load e.order off 1 = some ((getU8 d (k + i)).setWidth 64) := by
  have hbyte : loadRaw e [getU8 d (k + i)] = (getU8 d (k + i)).toNat := by
    cases e <;> simp [loadRaw]
  rw [h off i 1 hoff hi, List.drop_eq_getElem_cons (by omega), ← getU8_eq]
  rw [show (getU8 d (k + i) :: d.drop (k + i + 1)).take 1 = [getU8 d (k + i)] from rfl, hbyte, BitVec.ofNat_toNat]

theorem half (h : Loaded e d f k len) {i : Nat} (hi : i + 2 ≤ len) (hd : k + len ≤ d.length) {off : Int}
    (hoff : off = -64 + i) : f.load e.order off 2 = some ((htons e (getBe16 d (k + i))).setWidth 64) := by
  rw [h off i 2 hoff hi, loadRaw_take_two e (by omega), BitVec.ofNat_toNat]

theorem word (h : Loaded e d f k len) {i : Nat} (hi : i + 4 ≤ len) (hd : k + len ≤ d.length) {off : Int}
    (hoff : off = -64 + i) : f.load e.order off 4 = some ((rawWord e (getBe32 d (k + i))).setWidth 64) := by
  rw [h off i 4 hoff hi, loadRaw_take_four e (by omega), BitVec.ofNat_toNat]

end Loaded

private theorem setWidth_and_htons (e : Endian) (x y : BitVec 16) :
    (htons e x).setWidth 64 &&& BitVec.ofInt 64 (htons e y).toNat = (htons e (x &&& y)).setWidth 64 := by
  rw [BitVec.ofInt_natCast, BitVec.ofNat_toNat, ← BitVec.setWidth_and]
  refine congrArg _ ?_
  cases e with
  | big => rfl
  | little =>
    simp only [htons, OnesComplement.swap, BitVec.setWidth_and, BitVec.ushiftRight_and_distrib]
    exact BitVec.and_append

private theorem htons_eq_zero {e : Endian} {x : BitVec 16} : (htons e x).setWidth 64 = 0#64 ↔ x = 0 := by
  have hx := x.isLt
  have hwidth := BitVec.toNat_setWidth 64 (htons e x)
  have hlt := (htons e x).isLt
  rw [← BitVec.toNat_inj, ← BitVec.toNat_inj, hwidth, Nat.mod_eq_of_lt (by omega)]
  show (htons e x).toNat = 0 ↔ x.toNat = 0
  cases e with
  | big => rfl
  | little =>
    rw [htons, OnesComplement.toNat_swap]
    omega

private theorem eqImm_byte (b : Byte) (n : Nat) (hn : n < 256) :
    (Value.scalar (b.setWidth 64)).eqImm n = some (decide (b = BitVec.ofNat 8 n)) := by
  refine congrArg some (decide_eq_decide.2 ?_)
  have hb := b.isLt
  rw [BitVec.ofInt_natCast, ← BitVec.toNat_inj, ← BitVec.toNat_inj, BitVec.toNat_setWidth, BitVec.toNat_ofNat,
    BitVec.toNat_ofNat]
  omega

private theorem eqImm_version (d : List Byte) (n : Nat) (hn : n < 256) :
    (Value.scalar (AluOp.eval ((getU8 d 0).setWidth 64) (BitVec.ofInt 64 4) .rsh)).eqImm n =
      some (decide (version d = BitVec.ofNat 8 n)) := by
  have hversion (b : Byte) : AluOp.eval (b.setWidth 64) (BitVec.ofInt 64 4) .rsh = (b >>> 4).setWidth 64 := by
    revert b
    decide +kernel
  rw [hversion]
  exact eqImm_byte _ n hn

/-- The test for the flags of a fragment does not depend on the byte order. -/
private theorem eqImm_htons (e : Endian) (x y : BitVec 16) :
    (Value.scalar ((htons e x).setWidth 64 &&& BitVec.ofInt 64 (htons e y).toNat)).eqImm 0 =
      some (decide (x &&& y = 0)) := by
  rw [setWidth_and_htons]
  exact congrArg some (decide_eq_decide.2 htons_eq_zero)

/-- The length of an IPv4 header. -/
private theorem ihl_eq (b : Byte) :
    (AluOp.eval (AluOp.eval (b.setWidth 64) (BitVec.ofInt 64 0x0f) .and) (BitVec.ofInt 64 2) .lsh).toNat =
      (b &&& 0x0f).toNat * 4 := by
  revert b
  decide +kernel

variable {entries : Nat → Nat}

private theorem does_foldWord {x : BitVec 64} {w : BitVec 32} (hat : At code pc foldWord)
    (h : Does env code ⟨pc + 2, [r0, .scalar (w.setWidth 64), r2, r3, r4, r5, r6, .scalar (SteeringKey.addWord x w), r8,
      r9, .stack 0], f⟩ p) :
    Does env code ⟨pc, [r0, .scalar (w.setWidth 64), r2, r3, r4, r5, r6, .scalar x, r8, r9, .stack 0], f⟩ p := by
  refine .block (k := 0) hat rfl ?_ h
  simp [foldWord, alur, alui, SteeringKey.addWord, SteeringKey.low]

/-- The ports at an offset are added to the hash, if they are there. -/
private theorem does_portsAt {x off : BitVec 64}
    (hat : At code pc (loadBytes 4 ++ [jne 0 3 0, ldx .w 1 10 (-64)] ++ foldWord))
    (hp : ∀ r0 r1 r2 r3 r4 r5 f, Does ⟨e.order, d, entries⟩ code ⟨pc + 8, [r0, r1, r2, r3, r4, r5, .ctx,
      .scalar (SteeringKey.hashPorts e x (portsAt d off.toNat)), r8, r9, .stack 0], f⟩ p) :
    Does ⟨e.order, d, entries⟩ code
      ⟨pc, [r0, .ctx, .scalar off, r3, r4, r5, .ctx, .scalar x, r8, r9, .stack 0], f⟩ p := by
  unfold portsAt at hp
  refine does_loadBytes (hat.sub 0 5) (by decide) (by decide) (fun hfit => ?_) fun hmiss r0 f => ?_
  · simp only [if_pos hfit] at hp
    have hload : Loaded e d (f.write (-64) ((d.drop off.toNat).take 4)) off.toNat 4 := .write (by decide) hfit
    have hword := hload.word (i := 0) (by decide) hfit (show -64 = _ by decide)
    refine .ldx (hat.get (k := 5) rfl) rfl rfl hword (by decide) ?_
    exact does_foldWord (hat.sub 6 2) (hp _ _ _ _ _ _ _)
  · simp only [if_neg (Nat.not_le.2 hmiss)] at hp
    exact hp _ _ _ _ _ _ _

/-- The ports that follow an IPv4 header. -/
private theorem does_ports4 (hat : At code pc (ports4 e)) (h : Loaded e d f 0 20) (hd : 20 ≤ d.length) {x : BitVec 64}
    (hp : ∀ r0 r1 r2 r3 r4 r5 f, Does ⟨e.order, d, entries⟩ code ⟨pc + 18, [r0, r1, r2, r3, r4, r5, .ctx,
      .scalar (SteeringKey.hashPorts e x (flowPorts4 d)), r8, r9, .stack 0], f⟩ p) :
    Does ⟨e.order, d, entries⟩ code ⟨pc, [r0, r1, r2, r3, r4, r5, .ctx, .scalar x, r8, r9, .stack 0], f⟩ p := by
  have hports : flowPorts4 d = if getBe16 d 6 &&& 0x3fff = 0 ∧ (getU8 d 9 = 6 ∨ getU8 d 9 = 17) then
      portsAt d ((getU8 d 0 &&& 0x0f).toNat * 4) else none := by
    have hmask : ip4FMask ||| ip4FMf = 0x3fff := by decide
    rw [flowPorts4, hmask]
    rfl
  have hskip (hno : ¬(getBe16 d 6 &&& 0x3fff = 0 ∧ (getU8 d 9 = 6 ∨ getU8 d 9 = 17))) (r0 r1 r2 r3 r4 r5 : Value)
      (f : Frame) : Does ⟨e.order, d, entries⟩ code
        ⟨pc + 18, [r0, r1, r2, r3, r4, r5, .ctx, .scalar x, r8, r9, .stack 0], f⟩ p := by
    have hnext := hp r0 r1 r2 r3 r4 r5 f
    rw [hports, if_neg hno] at hnext
    exact hnext
  have hfrag := h.half (i := 6) (by decide) (by omega) (show -58 = _ by decide)
  have hproto := h.byte (i := 9) (by decide) (by omega) (show -55 = _ by decide)
  have hihl := h.byte (i := 0) (by decide) (by omega) (show -64 = _ by decide)
  simp only [Nat.zero_add] at hfrag hproto hihl
  refine .ldx (hat.get (k := 0) rfl) rfl rfl hfrag (by decide) ?_
  refine .alu64 (hat.get (k := 1) rfl) rfl rfl (show 1 < 10 by decide) ?_
  refine .jne _ (hat.get (k := 2) rfl) rfl rfl (eqImm_htons e _ _) ?_
  by_cases hunfrag : getBe16 d 6 &&& 0x3fff = 0
  · rw [decide_eq_true hunfrag]
    refine .ldx (hat.get (k := 3) rfl) rfl rfl hproto (by decide) ?_
    have hread (hflow : getU8 d 9 = 6 ∨ getU8 d 9 = 17) (r0 r2 : Value) :
        Does ⟨e.order, d, entries⟩ code ⟨pc + 6, [r0, .scalar ((getU8 d 9).setWidth 64), r2, r3, r4, r5, .ctx,
          .scalar x, r8, r9, .stack 0], f⟩ p := by
      refine .ldx (hat.get (k := 6) rfl) rfl rfl hihl (by decide) ?_
      refine .alu64 (hat.get (k := 7) rfl) rfl rfl (by decide) ?_
      refine .alu64 (hat.get (k := 8) rfl) rfl rfl (by decide) ?_
      refine .alu64 (hat.get (k := 9) rfl) rfl rfl (by decide) ?_
      refine does_portsAt (hat.sub 10 8) fun r0 r1 r2 r3 r4 r5 f => ?_
      have hnext := hp r0 r1 r2 r3 r4 r5 f
      rw [hports, if_pos ⟨hunfrag, hflow⟩, ← ihl_eq] at hnext
      exact hnext
    refine .jeq (decide (getU8 d 9 = 6)) (hat.get (k := 4) rfl) rfl rfl (eqImm_byte _ 6 (by decide)) ?_
    by_cases htcp : getU8 d 9 = 6
    · rw [decide_eq_true htcp]
      exact hread (.inl htcp) _ _
    · rw [decide_eq_false htcp]
      refine .jne (decide (getU8 d 9 = 17)) (hat.get (k := 5) rfl) rfl rfl (eqImm_byte _ 17 (by decide)) ?_
      by_cases hudp : getU8 d 9 = 17
      · rw [decide_eq_true hudp]
        exact hread (.inr hudp) _ _
      · rw [decide_eq_false hudp]
        exact hskip (fun h => h.2.elim htcp hudp) _ _ _ _ _ _ _
  · rw [decide_eq_false hunfrag]
    exact hskip (fun h => hunfrag h.1) _ _ _ _ _ _ _

/-- The ports that follow an IPv6 header. -/
private theorem does_ports6 (hat : At code pc ports6) {x : BitVec 64}
    (hp : ∀ r0 r1 r2 r3 r4 r5 f, Does ⟨e.order, d, entries⟩ code ⟨pc + 12, [r0, r1, r2, r3, r4, r5, .ctx,
      .scalar (SteeringKey.hashPorts e x (flowPorts6 d)), r8, .scalar ((getU8 d 6).setWidth 64), .stack 0], f⟩ p) :
    Does ⟨e.order, d, entries⟩ code ⟨pc, [r0, r1, r2, r3, r4, r5, .ctx, .scalar x, r8,
      .scalar ((getU8 d 6).setWidth 64), .stack 0], f⟩ p := by
  have hports : flowPorts6 d = if getU8 d 6 = 6 ∨ getU8 d 6 = 17 then portsAt d 40 else none := rfl
  have hread (hflow : getU8 d 6 = 6 ∨ getU8 d 6 = 17) : Does ⟨e.order, d, entries⟩ code ⟨pc + 2, [r0, r1, r2, r3, r4,
      r5, .ctx, .scalar x, r8, .scalar ((getU8 d 6).setWidth 64), .stack 0], f⟩ p := by
    refine .alu64 (hat.get (k := 2) rfl) rfl rfl (by decide) ?_
    refine .alu64 (hat.get (k := 3) rfl) rfl rfl (by decide) ?_
    refine does_portsAt (hat.sub 4 8) fun r0 r1 r2 r3 r4 r5 f => ?_
    have hnext := hp r0 r1 r2 r3 r4 r5 f
    rw [hports, if_pos hflow] at hnext
    exact hnext
  refine .jeq (decide (getU8 d 6 = 6)) (hat.get (k := 0) rfl) rfl rfl (eqImm_byte _ 6 (by decide)) ?_
  by_cases htcp : getU8 d 6 = 6
  · rw [decide_eq_true htcp]
    exact hread (.inl htcp)
  · rw [decide_eq_false htcp]
    refine .jne (decide (getU8 d 6 = 17)) (hat.get (k := 1) rfl) rfl rfl (eqImm_byte _ 17 (by decide)) ?_
    by_cases hudp : getU8 d 6 = 17
    · rw [decide_eq_true hudp]
      exact hread (.inr hudp)
    · rw [decide_eq_false hudp]
      have hnext := hp r0 r1 r2 r3 r4 r5 f
      rw [hports, if_neg fun h => h.elim htcp hudp] at hnext
      exact hnext

private theorem does_addresses4 (hat : At code pc addresses4) (h : Loaded e d f 0 20) (hd : 20 ≤ d.length)
    (hp : ∀ r1, Does ⟨e.order, d, entries⟩ code ⟨pc + 5, [r0, r1, r2, r3, r4, r5, r6,
      .scalar ((rawWord e (getBe32 d 12) ^^^ rawWord e (getBe32 d 16)).setWidth 64 ^^^ 4), r8, .scalar 0, .stack 0],
      f⟩ p) :
    Does ⟨e.order, d, entries⟩ code ⟨pc, [r0, r1, r2, r3, r4, r5, r6, r7, r8, r9, .stack 0], f⟩ p := by
  have hsrc := h.word (i := 12) (by decide) (by omega) (show -52 = _ by decide)
  have hdest := h.word (i := 16) (by decide) (by omega) (show -48 = _ by decide)
  simp only [Nat.zero_add] at hsrc hdest
  refine .block (k := 0) hat rfl ?_ (hp (.scalar ((rawWord e (getBe32 d 16)).setWidth 64)))
  simp [addresses4, movi, ldx, alur, alui, hsrc, hdest]

/-- One more word of the addresses is hashed. -/
private theorem does_addressWord {a b : BitVec 32} {x : BitVec 64} {off1 off2 : Int}
    (hat : At code pc ([ldx .w 1 10 off1, ldx .w 2 10 off2, alur .xor 1 2] ++ foldWord))
    (ha : f.load env.order off1 4 = some (a.setWidth 64)) (hb : f.load env.order off2 4 = some (b.setWidth 64))
    (hp : ∀ r1 r2, Does env code ⟨pc + 5, [r0, r1, r2, r3, r4, r5, r6, .scalar (SteeringKey.addWord x (a ^^^ b)), r8,
      r9, .stack 0], f⟩ p) :
    Does env code ⟨pc, [r0, r1, r2, r3, r4, r5, r6, .scalar x, r8, r9, .stack 0], f⟩ p := by
  refine .block (k := 0) (hat.sub 0 3) rfl ?_
    (does_foldWord (w := a ^^^ b) (hat.sub 3 2) (hp _ (.scalar (b.setWidth 64))))
  show steps env 0 [ldx .w 1 10 off1, ldx .w 2 10 off2, alur .xor 1 2] _ = _
  simp [ldx, alur, ha, hb]

private theorem does_addresses6 (hat : At code pc addresses6) (h : Loaded e d f 8 32) (hd : 40 ≤ d.length)
    (hp : ∀ r1 r2, Does ⟨e.order, d, entries⟩ code ⟨pc + 21, [r0, r1, r2, r3, r4, r5, r6,
      .scalar ([0, 1, 2, 3].foldl (fun h i => SteeringKey.addWord h
        (rawWord e (word6 (getIn6 d 8) i) ^^^ rawWord e (word6 (getIn6 d 24) i))) 6), r8, r9, .stack 0], f⟩ p) :
    Does ⟨e.order, d, entries⟩ code ⟨pc, [r0, r1, r2, r3, r4, r5, r6, r7, r8, r9, .stack 0], f⟩ p := by
  have hword (i : Nat) (hi : i + 4 ≤ 32) (off : Int) (hoff : off = -64 + i) :
      f.load e.order off 4 = some ((rawWord e (getBe32 d (8 + i))).setWidth 64) := h.word hi (by omega) hoff
  refine .alu64 (hat.get (k := 0) rfl) rfl rfl (by decide) ?_
  refine does_addressWord (hat.sub 1 5) (hword 0 (by decide) _ rfl) (hword 16 (by decide) _ rfl) fun r1 r2 => ?_
  refine does_addressWord (hat.sub 6 5) (hword 4 (by decide) _ rfl) (hword 20 (by decide) _ rfl) fun r1 r2 => ?_
  refine does_addressWord (hat.sub 11 5) (hword 8 (by decide) _ rfl) (hword 24 (by decide) _ rfl) fun r1 r2 => ?_
  refine does_addressWord (hat.sub 16 5) (hword 12 (by decide) _ rfl) (hword 28 (by decide) _ rfl) fun r1 r2 => ?_
  have hnext := hp r1 r2
  simp only [getIn6, List.foldl, word6_ofWords6_zero, word6_ofWords6_one, word6_ofWords6_two,
    word6_ofWords6_three] at hnext
  exact hnext

/-- The next header is kept in `r9` and the addresses are hashed, if they are all there. -/
private theorem does_head6 {o : Nat} (hat : At code pc (ldx .b 9 10 (-58) :: movr 1 6 :: movi 2 8 :: loadBytes 32 ++
      [jne 0 o 0] ++ addresses6)) (h : Loaded e d f 0 20) (hd : 20 ≤ d.length)
    (hfit : 40 ≤ d.length → ∀ r0 r1 r2 r3 r4 r5 f, Does ⟨e.order, d, entries⟩ code ⟨pc + 29, [r0, r1, r2, r3, r4, r5,
      .ctx, .scalar ([0, 1, 2, 3].foldl (fun h i => SteeringKey.addWord h
        (rawWord e (word6 (getIn6 d 8) i) ^^^ rawWord e (word6 (getIn6 d 24) i))) 6), r8,
      .scalar ((getU8 d 6).setWidth 64), .stack 0], f⟩ p)
    (hmiss : d.length < 40 → ∀ r0 r1 r2 r3 r4 r5 r9 f, Does ⟨e.order, d, entries⟩ code ⟨pc + 8 + o, [r0, r1, r2, r3, r4,
      r5, .ctx, r7, r8, r9, .stack 0], f⟩ p) :
    Does ⟨e.order, d, entries⟩ code ⟨pc, [r0, r1, r2, r3, r4, r5, .ctx, r7, r8, r9, .stack 0], f⟩ p := by
  have hnext := h.byte (i := 6) (by decide) (by omega) (show -58 = _ by decide)
  simp only [Nat.zero_add] at hnext
  refine .ldx (hat.get (k := 0) rfl) rfl rfl hnext (by decide) ?_
  refine .alu64 (hat.get (k := 1) rfl) rfl rfl (by decide) ?_
  refine .alu64 (hat.get (k := 2) rfl) rfl rfl (by decide) ?_
  refine does_loadBytes (hat.sub 3 5) (by decide) (by decide) (fun h40 => ?_) fun h40 r0 f => ?_
  · have hload : Loaded e d (f.write (-64) ((d.drop 8).take 32)) 8 32 := .write (by decide) h40
    exact does_addresses6 (hat.sub 8 21) hload h40 fun r1 r2 => hfit h40 _ _ _ _ _ _ _
  · exact hmiss h40 _ _ _ _ _ _ _ _

/-! ### The program -/

/-- What `steeringCode` emits: the offsets of the long jumps depend on whether the ports count. -/
def steeringListing (e : Endian) (queues : Nat) (flowAware : Bool) (buckets counter : Nat) : List Insn :=
  let flow (x y : Nat) : Int := if flowAware then x else y
  movr 6 1 :: movi 2 0 :: loadBytes 20 ++ [jne 0 (flow 107 77) 0] ++
  [ldx .b 7 10 (-64), alui .rsh 7 4, jeq 7 (flow 25 7) 6, jne 7 (flow 103 73) 4] ++
  addresses4 ++ (if flowAware then ports4 e else []) ++ [ja (flow 42 30)] ++
  ldx .b 9 10 (-58) :: movr 1 6 :: movi 2 8 :: loadBytes 32 ++ [jne 0 (flow 71 59) 0] ++
  addresses6 ++ (if flowAware then ports6 else []) ++ [movi 9 1] ++ assignBucket queues buckets counter

set_option maxRecDepth 4000 in
theorem steeringBuilder_eq (e : Endian) (queues : Nat) (flowAware : Bool) (buckets counter : Nat) :
    steeringBuilder e queues flowAware buckets counter =
      ⟨steeringListing e queues flowAware buckets counter, false⟩ := by
  cases flowAware <;> cbv

theorem steeringBuilder_code (e : Endian) (queues : Nat) (flowAware : Bool) (buckets counter : Nat) :
    (steeringBuilder e queues flowAware buckets counter).code = steeringListing e queues flowAware buckets counter := by
  rw [steeringBuilder_eq]

private theorem length_steeringListing (e : Endian) (queues : Nat) (flowAware : Bool) (buckets counter : Nat) :
    (steeringListing e queues flowAware buckets counter).length = if flowAware then 116 else 86 := by
  cases flowAware <;> rfl

theorem length_steeringListing_le (e : Endian) (queues : Nat) (flowAware : Bool) (buckets counter : Nat) :
    (steeringListing e queues flowAware buckets counter).length ≤ 512 := by
  rw [length_steeringListing]
  split <;> decide

/-- The program that ignores the packet. -/
private theorem does_fail {queues buckets counter : Nat} (h : At code pc (assignBucket queues buckets counter)) :
    Does env code ⟨pc + 37, [r0, r1, r2, r3, r4, r5, r6, r7, r8, r9, .stack 0], f⟩ (.done (.exit 0)) := by
  refine .alu64 (h.get (k := 37) rfl) rfl rfl (by decide) ?_
  exact .exit (h.get (k := 38) rfl) rfl rfl

section

variable {queues buckets counter : Nat} {flowAware : Bool}

private theorem at_assignBucket : At (steeringListing e queues flowAware buckets counter) (if flowAware then 77 else 47)
    (assignBucket queues buckets counter) := by
  cases flowAware <;> exact ⟨[], rfl⟩

private theorem steer_ip6 (hd : 20 ≤ d.length) (h6 : version d = 6) : steer e queues flowAware buckets counter d =
    if d.length < 40 then .done (.exit 0) else assign queues buckets counter 1
      (SteeringKey.bucket e (.ip6 (getIn6 d 8) (getIn6 d 24) (if flowAware then flowPorts6 d else none))) := by
  rw [steer, steeringKey, if_neg (Nat.not_lt.2 hd), if_pos h6]
  by_cases h40 : d.length < 40
  · rw [if_pos h40, if_pos h40]
  · rw [if_neg h40, if_neg h40]
    rfl

private theorem steer_ip4 (hd : 20 ≤ d.length) (h4 : version d = 4) : steer e queues flowAware buckets counter d =
    assign queues buckets counter 0
      (SteeringKey.bucket e (.ip4 (getBe32 d 12) (getBe32 d 16) (if flowAware then flowPorts4 d else none))) := by
  rw [steer, steeringKey, if_neg (Nat.not_lt.2 hd), if_neg (by rw [h4]; decide), if_pos h4]
  rfl

variable (hqueues : 0 < queues) (hmax : queues ≤ 128) (hbuckets : entries buckets = 65536)
  (hcounter : entries counter = 2)
include hqueues hmax hbuckets hcounter

private theorem does_ip4 (h : Loaded e d f 0 20) (hd : 20 ≤ d.length) :
    Does ⟨e.order, d, entries⟩ (steeringListing e queues flowAware buckets counter)
      ⟨11, [r0, r1, r2, r3, r4, r5, .ctx, r7, r8, r9, .stack 0], f⟩ (assign queues buckets counter 0
        (SteeringKey.bucket e (.ip4 (getBe32 d 12) (getBe32 d 16) (if flowAware then flowPorts4 d else none)))) := by
  have hassign := @at_assignBucket e queues buckets counter flowAware
  have hat : At (steeringListing e queues flowAware buckets counter) 11 addresses4 := by
    cases flowAware <;> exact ⟨_, rfl⟩
  refine does_addresses4 hat h hd fun r1 => ?_
  cases flowAware with
  | true =>
    refine does_ports4 ⟨_, rfl⟩ h hd fun r0 r1 r2 r3 r4 r5 f => ?_
    refine .ja (o := 42) rfl rfl rfl ?_
    exact does_assign hqueues hmax (by decide) hbuckets hcounter hassign _
  | false =>
    refine .ja (o := 30) rfl rfl rfl ?_
    exact does_assign hqueues hmax (by decide) hbuckets hcounter hassign _

private theorem does_ip6 (h : Loaded e d f 0 20) (hd : 20 ≤ d.length) :
    Does ⟨e.order, d, entries⟩ (steeringListing e queues flowAware buckets counter)
      ⟨if flowAware then 35 else 17, [r0, r1, r2, r3, r4, r5, .ctx, r7, r8, r9, .stack 0], f⟩
      (if d.length < 40 then .done (.exit 0) else assign queues buckets counter 1
        (SteeringKey.bucket e (.ip6 (getIn6 d 8) (getIn6 d 24) (if flowAware then flowPorts6 d else none)))) := by
  have hassign := @at_assignBucket e queues buckets counter flowAware
  cases flowAware with
  | true =>
    refine does_head6 (o := 71) ⟨_, rfl⟩ h hd (fun h40 r0 r1 r2 r3 r4 r5 f => ?_) fun h40 r0 r1 r2 r3 r4 r5 r9 f => ?_
    · rw [if_neg (Nat.not_lt.2 h40)]
      refine does_ports6 ⟨_, rfl⟩ fun r0 r1 r2 r3 r4 r5 f => ?_
      refine .alu64 (v := .scalar 1) rfl rfl rfl (by decide) ?_
      exact does_assign hqueues hmax (by decide) hbuckets hcounter hassign _
    · rw [if_pos h40]
      exact does_fail hassign
  | false =>
    refine does_head6 (o := 59) ⟨_, rfl⟩ h hd (fun h40 r0 r1 r2 r3 r4 r5 f => ?_) fun h40 r0 r1 r2 r3 r4 r5 r9 f => ?_
    · rw [if_neg (Nat.not_lt.2 h40)]
      refine .alu64 (v := .scalar 1) rfl rfl rfl (by decide) ?_
      exact does_assign hqueues hmax (by decide) hbuckets hcounter hassign _
    · rw [if_pos h40]
      exact does_fail hassign

/-- **The steering program does what `steer` says.** -/
theorem does_steer : Does ⟨e.order, d, entries⟩ (steeringListing e queues flowAware buckets counter) entry
    (steer e queues flowAware buckets counter d) := by
  have hassign := @at_assignBucket e queues buckets counter flowAware
  have hhead : At (steeringListing e queues flowAware buckets counter) 2
      (loadBytes 20 ++ [jne 0 (if flowAware then 107 else 77 : Nat) 0]) := by
    cases flowAware <;> exact ⟨_, rfl⟩
  refine .alu64 (i := movr 6 1) ?_ rfl rfl (by decide) ?_
  · cases flowAware <;> rfl
  refine .alu64 (i := movi 2 0) ?_ rfl rfl (by decide) ?_
  · cases flowAware <;> rfl
  refine does_loadBytes hhead (by decide) (by decide) (fun hfit => ?_) fun hmiss r0 f => ?_
  · have hd : 20 ≤ d.length := by
      have hzero : (BitVec.ofInt 64 0).toNat = 0 := by decide
      simpa [movi, hzero] using hfit
    have hload : Loaded e d (entry.frame.write (-64) ((d.drop 0).take 20)) 0 20 := .write (by decide) hd
    have hfirst := hload.byte (i := 0) (by decide) hd (show -64 = _ by decide)
    simp only [Nat.zero_add] at hfirst
    have hat : At (steeringListing e queues flowAware buckets counter) 7 [ldx .b 7 10 (-64), alui .rsh 7 4,
        jeq 7 (if flowAware then 25 else 7 : Nat) 6, jne 7 (if flowAware then 103 else 73 : Nat) 4] := by
      cases flowAware <;> exact ⟨_, rfl⟩
    refine .ldx (hat.get (k := 0) rfl) rfl rfl hfirst (by decide) ?_
    refine .alu64 (hat.get (k := 1) rfl) rfl rfl (by decide) ?_
    refine .jeq (decide (version d = 6)) (hat.get (k := 2) rfl) rfl rfl (eqImm_version d 6 (by decide)) ?_
    by_cases h6 : version d = 6
    · rw [decide_eq_true h6, steer_ip6 hd h6]
      cases flowAware <;> exact does_ip6 hqueues hmax hbuckets hcounter hload hd
    · rw [decide_eq_false h6]
      refine .jne (decide (version d = 4)) (hat.get (k := 3) rfl) rfl rfl (eqImm_version d 4 (by decide)) ?_
      by_cases h4 : version d = 4
      · rw [decide_eq_true h4, steer_ip4 hd h4]
        exact does_ip4 hqueues hmax hbuckets hcounter hload hd
      · rw [decide_eq_false h4, steer, steeringKey, if_neg (Nat.not_lt.2 hd), if_neg h6, if_neg h4]
        cases flowAware <;> exact does_fail hassign
  · have hshort : d.length < 20 := by
      simpa [movi] using hmiss
    rw [steer, steeringKey, if_pos hshort]
    cases flowAware <;> exact does_fail hassign

end

end Tayga
