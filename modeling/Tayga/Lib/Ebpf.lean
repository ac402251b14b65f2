import Mathlib.Algebra.Group.Nat.Defs
import Mathlib.Data.List.Basic
import Tayga.Lib.Program

/-!
# eBPF programs

The part of the eBPF machine a socket filter with array maps needs.  Registers hold numbers or addresses, and an
instruction that the verifier would refuse (an operand never written, an address out of bounds, a call with arguments
of another kind) is a fault, so a program that never faults passes these checks.  The stack frame and the packet belong
to one invocation; the values of the maps are shared, and every access to one is an operation of the program (`MemOp`),
so other processors may come in between.
-/

namespace Ebpf

/-! ### Instructions -/

inductive AluOp where
  | mov | add | sub | mul | mod | and | xor | lsh | rsh
deriving Repr, DecidableEq

/-- `BPF_K` and `BPF_X`. -/
inductive Operand where
  | k | x
deriving Repr, DecidableEq

/-- `BPF_B`, `BPF_H` and `BPF_W`. -/
inductive Size where
  | b | h | w
deriving Repr, DecidableEq

/-- The operation of an instruction. -/
inductive Code where
  | alu64 (op : AluOp) (src : Operand)
  | alu (op : AluOp) (src : Operand)
  | ldx (size : Size)
  | stx (size : Size)
  | atomic (size : Size)
  | ldImm
  | ldImmHigh
  | ja
  | jeq
  | jne
  | call
  | exit
deriving Repr, DecidableEq

/-- `struct bpf_insn`. -/
structure Insn where
  code : Code
  dst : Nat
  src : Nat
  off : Int
  imm : Int
deriving Repr, DecidableEq

/-- `BPF_PSEUDO_MAP_FD`. -/
def pseudoMapFd : Nat := 1

/-- `BPF_FUNC_map_lookup_elem`. -/
def mapLookupElem : Int := 1

/-- `BPF_FUNC_skb_load_bytes`. -/
def skbLoadBytes : Int := 26

/-- `BPF_ADD | BPF_FETCH`. -/
def fetchAdd : Int := 0x01

/-- `BPF_CMPXCHG`. -/
def cmpxchg : Int := 0xf1

/-! ### The machine -/

/-- How the machine lays out a number in memory. -/
structure Order where
  load : List (BitVec 8) → Nat
  store : Nat → BitVec 64 → List (BitVec 8)
  length_store : ∀ n x, (store n x).length = n
  load_store : ∀ n x, load (store n x) = x.toNat % 2 ^ (8 * n)

/-- What a register holds: an address of the stack is relative to the frame pointer. -/
inductive Value where
  | uninit
  | scalar (x : BitVec 64)
  | ctx
  | stack (off : Int)
  | map (fd : Nat)
  | mapValue (fd key : Nat)
deriving Repr, DecidableEq

/-- The bytes of the stack frame that were written. -/
abbrev Frame := Int → Option (BitVec 8)

/-- What an invocation runs on: the byte order, the packet, and the number of values in each array map. -/
structure Env where
  order : Order
  packet : List (BitVec 8)
  entries : Nat → Nat

/-- The registers `r0` to `r10` and the stack frame. -/
structure State where
  pc : Nat
  regs : List Value
  frame : Frame

/-- An access to the value of a map. -/
inductive MemOp where
  | load (fd key : Nat)
  | fetchAdd (fd key : Nat) (x : BitVec 32)
  | cmpxchg (fd key : Nat) (expected new : BitVec 32)
deriving Repr, DecidableEq

/-- What comes back is the value that was there. -/
abbrev MemOp.Ans : MemOp → Type := fun _ => BitVec 32

/-- The values of the maps. -/
abbrev Maps := Nat → Nat → BitVec 32

def Maps.set (s : Maps) (fd key : Nat) (x : BitVec 32) : Maps :=
  fun f k => if f = fd ∧ k = key then x else s f k

theorem Maps.set_self (s : Maps) (fd key : Nat) (x : BitVec 32) : s.set fd key x fd key = x := if_pos ⟨rfl, rfl⟩

theorem Maps.set_of_ne (s : Maps) {fd key f k : Nat} (x : BitVec 32) (h : ¬(f = fd ∧ k = key)) :
    s.set fd key x f k = s f k := if_neg h

/-- An access takes place at once. -/
def access : (op : MemOp) → Maps → op.Ans × Maps
  | .load fd key, s => (s fd key, s)
  | .fetchAdd fd key x, s => (s fd key, s.set fd key (s fd key + x))
  | .cmpxchg fd key expected new, s => (s fd key, if s fd key = expected then s.set fd key new else s)

/-! ### Registers and memory -/

def AluOp.eval {w : Nat} (a b : BitVec w) : AluOp → BitVec w
  | .mov => b
  | .add => a + b
  | .sub => a - b
  | .mul => a * b
  | .mod => if b = 0 then a else a % b
  | .and => a &&& b
  | .xor => a ^^^ b
  | .lsh => a <<< (b.toNat % w)
  | .rsh => a >>> (b.toNat % w)

/-- An operation on 64 bits: addresses may be moved, and those of the stack be displaced. -/
def alu64 : AluOp → Value → Value → Option Value
  | .mov, _, .uninit => none
  | .mov, _, v => some v
  | op, .scalar a, .scalar b => some (.scalar (op.eval a b))
  | .add, .stack off, .scalar b => some (.stack (off + b.toInt))
  | _, _, _ => none

/-- An operation on the low 32 bits, which clears the high ones. -/
def alu32 : AluOp → Value → Value → Option Value
  | .mov, _, .scalar b => some (.scalar ((b.setWidth 32).setWidth 64))
  | op, .scalar a, .scalar b => some (.scalar ((op.eval (a.setWidth 32) (b.setWidth 32)).setWidth 64))
  | _, _, _ => none

/-- The comparison of a register with a constant: no address is zero. -/
def Value.eqImm : Value → Int → Option Bool
  | .scalar a, imm => some (decide (a = BitVec.ofInt 64 imm))
  | .mapValue _ _, imm => if imm = 0 then some false else none
  | _, _ => none

def Size.bytes : Size → Nat
  | .b => 1
  | .h => 2
  | .w => 4

/-- `n` bytes that were all written. -/
def Frame.bytes (f : Frame) (off : Int) : Nat → Option (List (BitVec 8))
  | 0 => some []
  | n + 1 => do
    let b ← f off
    return b :: (← f.bytes (off + 1) n)

/-- `n` bytes of the frame, which has 512. -/
def Frame.read (f : Frame) (off : Int) (n : Nat) : Option (List (BitVec 8)) :=
  if -512 ≤ off ∧ off + n ≤ 0 then f.bytes off n else none

/-- The number that the bytes of the frame spell. -/
def Frame.load (f : Frame) (o : Order) (off : Int) (n : Nat) : Option (BitVec 64) :=
  (f.read off n).map fun d => BitVec.ofNat 64 (o.load d)

def Frame.write (f : Frame) (off : Int) (d : List (BitVec 8)) : Frame :=
  fun i => if off ≤ i ∧ i < off + d.length then d[(i - off).toNat]? else f i

namespace State

variable (s : State)

def reg (r : Nat) : Value := s.regs.getD r .uninit

/-- The frame pointer is not written. -/
def set (r : Nat) (v : Value) : Option State :=
  if r < 10 then some ⟨s.pc + 1, s.regs.set r v, s.frame⟩ else none

/-- The operand of an instruction: the constant, or the register. -/
def operand (i : Insn) : Operand → Value
  | .k => .scalar (BitVec.ofInt 64 i.imm)
  | .x => s.reg i.src

def jump (off : Int) : Option State :=
  if 0 ≤ (s.pc : Int) + 1 + off then some { s with pc := ((s.pc : Int) + 1 + off).toNat } else none

/-- After a call `r0` has the result, and the arguments are gone. -/
def afterCall (v : Value) (f : Frame) : State :=
  ⟨s.pc + 1, v :: List.replicate 5 .uninit ++ s.regs.drop 6, f⟩

end State

/-! ### The stack frame -/

namespace Frame

variable {f : Frame} {d : List (BitVec 8)} {off : Int}

theorem bytes_write (k n : Nat) (hn : k + n ≤ d.length) :
    (f.write off d).bytes (off + k) n = some ((d.drop k).take n) := by
  induction n generalizing k with
  | zero => rfl
  | succ n ih =>
    have hk : k < d.length := by omega
    have hbyte : f.write off d (off + k) = some d[k] := by
      rw [write, if_pos (by omega), show (off + k - off).toNat = k by omega]
      exact List.getElem?_eq_getElem hk
    have hnext := ih (k + 1) (by omega)
    rw [show off + ((k + 1 : Nat) : Int) = off + k + 1 by omega] at hnext
    rw [bytes, hbyte, hnext, List.drop_eq_getElem_cons hk]
    rfl

/-- What was written is read again. -/
theorem load_write {o : Order} {src : Int} {n : Nat} (k : Nat) (hlow : -512 ≤ src) (hhigh : src + n ≤ 0)
    (hsrc : src = off + k) (hn : k + n ≤ d.length) :
    (f.write off d).load o src n = some (BitVec.ofNat 64 (o.load ((d.drop k).take n))) := by
  rw [load, read, if_pos ⟨hlow, hhigh⟩, hsrc, bytes_write k n hn]
  rfl

/-- A number that was stored is loaded again. -/
theorem load_store {o : Order} {n : Nat} {x : BitVec 64} (hlow : -512 ≤ off) (hhigh : off + n ≤ 0)
    (hx : x.toNat < 2 ^ (8 * n)) : (f.write off (o.store n x)).load o off n = some x := by
  have hlen := o.length_store n x
  rw [load_write 0 hlow hhigh (by omega) (by omega), List.drop_zero, List.take_of_length_le (by omega), o.load_store,
    Nat.mod_eq_of_lt hx, BitVec.ofNat_toNat, BitVec.setWidth_eq]

end Frame

/-! ### Execution -/

/-- `bpf_skb_load_bytes`: bytes that are not there are replaced by zeros. -/
def callSkbLoadBytes (env : Env) (s : State) : Option State :=
  match s.reg 1, s.reg 2, s.reg 3, s.reg 4 with
  | .ctx, .scalar offset, .stack dest, .scalar len =>
    if -512 ≤ dest ∧ dest + len.toNat ≤ 0 ∧ 0 < len.toNat then
      if offset.toNat + len.toNat ≤ env.packet.length then
        some (s.afterCall (.scalar 0) (s.frame.write dest ((env.packet.drop offset.toNat).take len.toNat)))
      else some (s.afterCall (.scalar (BitVec.ofInt 64 (-14))) (s.frame.write dest (List.replicate len.toNat 0)))
    else none
  | _, _, _, _ => none

/-- `bpf_map_lookup_elem` of an array map. -/
def callMapLookupElem (env : Env) (s : State) : Option State :=
  match s.reg 1, s.reg 2 with
  | .map fd, .stack off => do
    let key := (← s.frame.load env.order off 4).toNat
    return s.afterCall (if key < env.entries fd then .mapValue fd key else .scalar 0) s.frame
  | _, _ => none

/-- An instruction that does not touch a map. -/
def step (env : Env) (i : Insn) (s : State) : Option State :=
  match i.code with
  | .alu64 op src => do s.set i.dst (← alu64 op (s.reg i.dst) (s.operand i src))
  | .alu op src => do s.set i.dst (← alu32 op (s.reg i.dst) (s.operand i src))
  | .ldx size =>
    match s.reg i.src with
    | .stack off => do s.set i.dst (.scalar (← s.frame.load env.order (off + i.off) size.bytes))
    | _ => none
  | .stx size =>
    match s.reg i.dst, s.reg i.src with
    | .stack off, .scalar x =>
      if -512 ≤ off + i.off ∧ off + i.off + size.bytes ≤ 0 then
        some ⟨s.pc + 1, s.regs, s.frame.write (off + i.off) (env.order.store size.bytes x)⟩
      else none
    | _, _ => none
  | .ldImm =>
    if i.src = pseudoMapFd then (s.set i.dst (.map i.imm.toNat)).map fun t => { t with pc := s.pc + 2 } else none
  | .ja => s.jump i.off
  | .jeq => do if ← (s.reg i.dst).eqImm i.imm then s.jump i.off else s.jump 0
  | .jne => do if ← (s.reg i.dst).eqImm i.imm then s.jump 0 else s.jump i.off
  | .call =>
    if i.imm = skbLoadBytes then callSkbLoadBytes env s
    else if i.imm = mapLookupElem then callMapLookupElem env s
    else none
  | .ldImmHigh | .atomic _ | .exit => none

/-- How an invocation ends. -/
inductive Halt where
  | exit (r : BitVec 64)
  | fault
  | timeout
deriving Repr, DecidableEq

/-- A program of the machine. -/
abbrev Invocation (α : Type) := Program MemOp MemOp.Ans α

/-- Go on with the next state, if there is one. -/
def goOn (k : State → Invocation Halt) : Option State → Invocation Halt
  | some s => k s
  | none => .done .fault

/-- One instruction; the accesses to map values are operations. -/
def exec (env : Env) (i : Insn) (s : State) (k : State → Invocation Halt) : Invocation Halt :=
  match i.code with
  | .exit =>
    match s.reg 0 with
    | .scalar r => .done (.exit r)
    | _ => .done .fault
  | .ldx .w =>
    match s.reg i.src with
    | .mapValue fd key =>
      if i.off = 0 then
        .call (.load fd key) fun x => goOn k (s.set i.dst (.scalar (x.setWidth 64)))
      else .done .fault
    | _ => goOn k (step env i s)
  | .atomic .w =>
    match s.reg i.dst, s.reg i.src, s.reg 0 with
    | .mapValue fd key, .scalar x, r0 =>
      if i.off ≠ 0 then .done .fault
      else if i.imm = fetchAdd then
        .call (.fetchAdd fd key (x.setWidth 32)) fun old => goOn k (s.set i.src (.scalar (old.setWidth 64)))
      else if i.imm = cmpxchg then
        match r0 with
        | .scalar expected =>
          .call (.cmpxchg fd key (expected.setWidth 32) (x.setWidth 32)) fun old =>
            goOn k (s.set 0 (.scalar (old.setWidth 64)))
        | _ => .done .fault
      else .done .fault
    | _, _, _ => .done .fault
  | _ => goOn k (step env i s)

/-- At most `n` instructions of a program. -/
def run (env : Env) (code : List Insn) : Nat → State → Invocation Halt
  | 0, _ => .done .timeout
  | n + 1, s =>
    match code[s.pc]? with
    | some i => exec env i s (run env code n)
    | none => .done .fault

/-- The context is in `r1` and the frame pointer in `r10`. -/
def entry : State :=
  ⟨0, [.uninit, .ctx] ++ List.replicate 8 .uninit ++ [.stack 0], fun _ => none⟩

theorem setWidth_setWidth (x : BitVec 32) : (x.setWidth 64).setWidth 32 = x :=
  BitVec.setWidth_setWidth_of_le x (by decide)

/-- A value of a map is compared with zero. -/
theorem Value.eqImm_setWidth (x : BitVec 32) : (Value.scalar (x.setWidth 64)).eqImm 0 = some (decide (x = 0)) := by
  have hzero : x.setWidth 64 = 0#64 ↔ x = 0 := by
    rw [← BitVec.toNat_inj, ← BitVec.toNat_inj, BitVec.toNat_setWidth]
    simp only [BitVec.toNat_zero, BitVec.ofNat_eq_ofNat]
    have := x.isLt
    omega
  exact congrArg some (decide_eq_decide.2 hzero)

/-! ### Jumps forward -/

theorem State.jump_nat (s : State) (n : Nat) : s.jump n = some { s with pc := s.pc + 1 + n } := by
  rw [State.jump, if_pos (by omega)]
  rfl

@[simp] theorem State.jump_ofNat (s : State) (n : Nat) :
    s.jump (no_index (OfNat.ofNat n)) = some { s with pc := s.pc + 1 + n } := s.jump_nat n

/-! ### What code does -/

/-- From this state on, the code behaves as `p`; one instruction for each position that is left is enough. -/
def Does (env : Env) (code : List Insn) (s : State) (p : Invocation Halt) : Prop :=
  ∀ n, code.length ≤ s.pc + n → run env code n s = p

/-- A block stands at a position. -/
def At (code : List Insn) (pc : Nat) (block : List Insn) : Prop := block <+: code.drop pc

variable {env : Env} {code l : List Insn} {s t : State} {i : Insn} {p : Invocation Halt}

theorem At.cons {pc : Nat} (h : At code pc (i :: l)) : code[pc]? = some i ∧ At code (pc + 1) l := by
  obtain ⟨rest, h⟩ := h
  have hdrop : code.drop (pc + 1) = l ++ rest := by
    rw [← List.drop_drop, ← h]
    rfl
  refine ⟨?_, rest, hdrop.symm⟩
  have hget : (code.drop pc)[0]? = code[pc]? := List.getElem?_drop
  rw [← h] at hget
  exact hget.symm

/-- A part of a block is a block. -/
theorem At.sub {pc : Nat} (h : At code pc l) (k n : Nat) : At code (pc + k) ((l.drop k).take n) := by
  obtain ⟨rest, h⟩ := h
  rw [At, ← List.drop_drop, ← h]
  by_cases hk : k ≤ l.length
  · rw [List.drop_append_of_le_length hk]
    exact (List.take_prefix _ _).trans (List.prefix_append _ _)
  · rw [List.drop_eq_nil_of_le (by omega), List.take_nil]
    exact List.nil_prefix

theorem At.get {pc : Nat} (h : At code pc l) {k : Nat} (hi : l[k]? = some i) : code[pc + k]? = some i := by
  have hk : k < l.length := (List.getElem?_eq_some_iff.1 hi).1
  have hsub := h.sub k (l.length - k)
  rw [List.drop_eq_getElem_cons hk, show l.length - k = l.length - (k + 1) + 1 by omega, List.take_succ_cons] at hsub
  rw [hsub.cons.1, ← List.getElem?_eq_getElem hk, hi]

theorem Does.exec (hi : code[s.pc]? = some i) (h : ∀ n, code.length ≤ s.pc + 1 + n →
    Ebpf.exec env i s (run env code n) = p) : Does env code s p := by
  intro n hn
  have hlt : s.pc < code.length := (List.getElem?_eq_some_iff.1 hi).1
  obtain _ | n := n
  · omega
  · unfold run
    rw [hi]
    exact h n (by omega)

/-- An instruction that touches no map is a step of the machine. -/
theorem exec_of_step {k : State → Invocation Halt} (h : step env i s = some t) : Ebpf.exec env i s k = k t := by
  obtain ⟨c, dst, src, off, imm⟩ := i
  have hgo : goOn k (step env ⟨c, dst, src, off, imm⟩ s) = k t := by rw [h]; rfl
  cases c with
  | ldx size =>
    cases size with
    | w =>
      unfold Ebpf.exec
      dsimp only
      split
      · rename_i hreg
        rw [step, hreg] at h
        cases h
      · exact hgo
    | b => exact hgo
    | h => exact hgo
  | atomic size => cases h
  | exit => cases h
  | _ => exact hgo

theorem Does.step (hi : code[s.pc]? = some i) (h : Ebpf.step env i s = some t) (hpc : s.pc < t.pc)
    (ht : Does env code t p) : Does env code s p := by
  refine .exec hi fun n hn => ?_
  rw [exec_of_step h]
  exact ht n (by omega)

/-- An operation on a register. -/
theorem Does.alu64 {op : AluOp} {src : Operand} {v : Value} (hi : code[s.pc]? = some i)
    (hcode : i.code = .alu64 op src) (hv : Ebpf.alu64 op (s.reg i.dst) (s.operand i src) = some v) (hdst : i.dst < 10)
    (h : Does env code ⟨s.pc + 1, s.regs.set i.dst v, s.frame⟩ p) : Does env code s p := by
  refine .step hi (t := ⟨s.pc + 1, s.regs.set i.dst v, s.frame⟩) ?_ (Nat.lt_succ_self _) h
  unfold Ebpf.step
  rw [hcode]
  dsimp only
  rw [hv]
  exact if_pos hdst

/-- A number is loaded from the stack. -/
theorem Does.ldx {size : Size} {off : Int} {x : BitVec 64} (hi : code[s.pc]? = some i) (hcode : i.code = .ldx size)
    (hsrc : s.reg i.src = .stack off) (hx : s.frame.load env.order (off + i.off) size.bytes = some x)
    (hdst : i.dst < 10)
    (h : Does env code ⟨s.pc + 1, s.regs.set i.dst (.scalar x), s.frame⟩ p) : Does env code s p := by
  refine .step hi (t := ⟨s.pc + 1, s.regs.set i.dst (.scalar x), s.frame⟩) ?_ (Nat.lt_succ_self _) h
  unfold Ebpf.step
  rw [hcode]
  dsimp only
  rw [hsrc]
  dsimp only
  rw [hx]
  exact if_pos hdst

/-- A jump forward. -/
theorem Does.ja {o : Nat} (hi : code[s.pc]? = some i) (hcode : i.code = .ja) (hoff : i.off = o)
    (h : Does env code { s with pc := s.pc + 1 + o } p) : Does env code s p := by
  refine .step hi (t := { s with pc := s.pc + 1 + o }) ?_ (show s.pc < s.pc + 1 + o by omega) h
  unfold Ebpf.step
  rw [hcode]
  dsimp only
  rw [hoff, State.jump_nat]

/-- A jump forward if the register is equal to the constant. -/
theorem Does.jeq {o : Nat} (b : Bool) (hi : code[s.pc]? = some i) (hcode : i.code = .jeq) (hoff : i.off = o)
    (hb : (s.reg i.dst).eqImm i.imm = some b) (h : Does env code { s with pc := s.pc + 1 + if b then o else 0 } p) :
    Does env code s p := by
  refine .step hi (t := { s with pc := s.pc + 1 + if b then o else 0 }) ?_
    (show s.pc < s.pc + 1 + _ by omega) h
  unfold Ebpf.step
  rw [hcode]
  dsimp only
  rw [hb, hoff]
  cases b with
  | true => exact s.jump_nat o
  | false => exact s.jump_nat 0

/-- A jump forward if the register is not equal to the constant. -/
theorem Does.jne {o : Nat} (b : Bool) (hi : code[s.pc]? = some i) (hcode : i.code = .jne) (hoff : i.off = o)
    (hb : (s.reg i.dst).eqImm i.imm = some b) (h : Does env code { s with pc := s.pc + 1 + if b then 0 else o } p) :
    Does env code s p := by
  refine .step hi (t := { s with pc := s.pc + 1 + if b then 0 else o }) ?_
    (show s.pc < s.pc + 1 + _ by omega) h
  unfold Ebpf.step
  rw [hcode]
  dsimp only
  rw [hb, hoff]
  cases b with
  | true => exact s.jump_nat 0
  | false => exact s.jump_nat o

/-- The program ends. -/
theorem Does.exit {r : BitVec 64} (hi : code[s.pc]? = some i) (hcode : i.code = .exit) (hr : s.reg 0 = .scalar r) :
    Does env code s (.done (.exit r)) := by
  refine .exec hi fun n _ => ?_
  unfold Ebpf.exec
  rw [hcode, hr]

/-- The value of a map is loaded. -/
theorem Does.load {fd key : Nat} {q : BitVec 32 → Invocation Halt} (hi : code[s.pc]? = some i)
    (hcode : i.code = .ldx .w) (hsrc : s.reg i.src = .mapValue fd key) (hoff : i.off = 0) (hdst : i.dst < 10)
    (hq : ∀ x, Does env code ⟨s.pc + 1, s.regs.set i.dst (.scalar (x.setWidth 64)), s.frame⟩ (q x)) :
    Does env code s (.call (.load fd key) q) := by
  refine .exec hi fun n hn => ?_
  unfold Ebpf.exec
  rw [hcode]
  dsimp only
  rw [hsrc]
  dsimp only
  rw [if_pos hoff]
  refine congrArg _ (funext fun x => ?_)
  rw [State.set, if_pos hdst]
  exact hq x n hn

/-- A number is added to the value of a map. -/
theorem Does.fetchAdd {fd key : Nat} {x : BitVec 32} {q : BitVec 32 → Invocation Halt} (hi : code[s.pc]? = some i)
    (hcode : i.code = .atomic .w) (himm : i.imm = Ebpf.fetchAdd) (hdst : s.reg i.dst = .mapValue fd key)
    (hsrc : s.reg i.src = .scalar (x.setWidth 64)) (hoff : i.off = 0) (hlt : i.src < 10)
    (hq : ∀ y, Does env code ⟨s.pc + 1, s.regs.set i.src (.scalar (y.setWidth 64)), s.frame⟩ (q y)) :
    Does env code s (.call (.fetchAdd fd key x) q) := by
  refine .exec hi fun n hn => ?_
  unfold Ebpf.exec
  rw [hcode]
  dsimp only
  rw [hdst, hsrc]
  dsimp only
  rw [if_neg (not_not.2 hoff), if_pos himm, setWidth_setWidth]
  refine congrArg _ (funext fun y => ?_)
  rw [State.set, if_pos hlt]
  exact hq y n hn

/-- The value of a map is replaced if it is the expected one. -/
theorem Does.cmpxchg {fd key : Nat} {x old : BitVec 32} {q : BitVec 32 → Invocation Halt}
    (hi : code[s.pc]? = some i) (hcode : i.code = .atomic .w) (himm : i.imm = Ebpf.cmpxchg)
    (hdst : s.reg i.dst = .mapValue fd key) (hsrc : s.reg i.src = .scalar (x.setWidth 64))
    (h0 : s.reg 0 = .scalar (old.setWidth 64)) (hoff : i.off = 0)
    (hq : ∀ y, Does env code ⟨s.pc + 1, s.regs.set 0 (.scalar (y.setWidth 64)), s.frame⟩ (q y)) :
    Does env code s (.call (.cmpxchg fd key old x) q) := by
  refine .exec hi fun n hn => ?_
  unfold Ebpf.exec
  rw [hcode]
  dsimp only
  rw [hdst, hsrc, h0]
  dsimp only
  rw [if_neg (not_not.2 hoff), if_neg (by rw [himm]; decide), if_pos himm, setWidth_setWidth, setWidth_setWidth]
  refine congrArg _ (funext fun y => ?_)
  rw [State.set, if_pos (by decide)]
  exact hq y n hn

/-! ### Blocks -/

/-- The state after a block, whose instructions may skip others of it. -/
def steps (env : Env) : Nat → List Insn → State → Option State
  | 0, [], s => some s
  | _ + 1, [], _ => none
  | k + 1, _ :: l, s => steps env k l s
  | 0, i :: l, s => do
    let t ← step env i s
    if s.pc < t.pc then steps env (t.pc - s.pc - 1) l t else none

/-- **A block that touches no map.** -/
theorem Does.block {k pc : Nat} (hcode : At code pc l) (hpc : s.pc = pc + k) (h : steps env k l s = some t)
    (ht : Does env code t p) : Does env code s p := by
  induction l generalizing k pc s with
  | nil =>
    cases k with
    | zero =>
      cases h
      exact ht
    | succ k => cases h
  | cons i l ih =>
    obtain ⟨hi, hl⟩ := hcode.cons
    cases k with
    | zero =>
      rw [steps] at h
      obtain ⟨u, hu, h⟩ := Option.bind_eq_some_iff.1 h
      split at h
      · rename_i hlt
        refine .step (by rwa [hpc]) hu hlt (ih hl ?_ h)
        omega
      · cases h
    | succ k => exact ih hl (by omega) h

attribute [simp] steps step State.reg State.operand State.set State.afterCall alu64 alu32 AluOp.eval
  Value.eqImm Size.bytes

end Ebpf
