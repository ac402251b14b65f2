import Tayga.Checksum
import Tayga.Lib.Ebpf

/-!
# Queue steering

`tun_steering.h`: the eBPF program that chooses the queue of a packet from the TUN device, and the function that builds
it instruction by instruction.
-/

namespace Tayga

open Ebpf

/-- `struct steering_builder`. -/
structure SteeringBuilder where
  code : List Insn
  overflow : Bool
deriving Repr, DecidableEq

def SteeringBuilder.n (b : SteeringBuilder) : Nat := b.code.length

abbrev Steering (α : Type) := StateM SteeringBuilder α

/-- `SE`, which is `steering_emit`: the position of the new instruction. -/
def se (i : Insn) : Steering Nat := do
  let b ← get
  if b.n = 512 then
    set ({ b with overflow := true } : SteeringBuilder)
    return 0
  set ({ b with code := b.code ++ [i] } : SteeringBuilder)
  return b.n

/-- `SE` for an instruction that is not patched. -/
def emitInsn (i : Insn) : Steering Unit := discard (se i)

/-- `PATCH (n, b.n)`: the jump at `n` leads here. -/
def patch (n : Nat) : Steering Unit :=
  modify fun b => { b with code := b.code.modify n fun i => { i with off := (b.n : Int) - n - 1 } }

/-! ### Instructions -/

/-- `MOVI`. -/
def movi (d : Nat) (i : Int) : Insn := ⟨.alu64 .mov .k, d, 0, 0, i⟩

/-- `MOVR`. -/
def movr (d s : Nat) : Insn := ⟨.alu64 .mov .x, d, s, 0, 0⟩

/-- `ALUI`. -/
def alui (op : AluOp) (d : Nat) (i : Int) : Insn := ⟨.alu64 op .k, d, 0, 0, i⟩

/-- `SE (BPF_ALU | op | BPF_X, ..)`. -/
def alur (op : AluOp) (d s : Nat) : Insn := ⟨.alu op .x, d, s, 0, 0⟩

/-- `SE (BPF_LDX | BPF_MEM | size, ..)`. -/
def ldx (size : Size) (d s : Nat) (off : Int) : Insn := ⟨.ldx size, d, s, off, 0⟩

/-- `SE (BPF_STX | BPF_MEM | BPF_W, ..)`. -/
def stxw (d s : Nat) (off : Int) : Insn := ⟨.stx .w, d, s, off, 0⟩

/-- `SE (BPF_STX | BPF_ATOMIC | BPF_W, ..)`. -/
def atomicw (d s : Nat) (imm : Int) : Insn := ⟨.atomic .w, d, s, 0, imm⟩

/-- `CALL`. -/
def call (i : Int) : Insn := ⟨.call, 0, 0, 0, i⟩

/-- `SE (BPF_JMP | BPF_JEQ | BPF_K, ..)`. -/
def jeq (d : Nat) (off imm : Int) : Insn := ⟨.jeq, d, 0, off, imm⟩

/-- `SE (BPF_JMP | BPF_JNE | BPF_K, ..)`. -/
def jne (d : Nat) (off imm : Int) : Insn := ⟨.jne, d, 0, off, imm⟩

/-- `SE (BPF_JMP | BPF_JA, ..)`. -/
def ja (off : Int) : Insn := ⟨.ja, 0, 0, off, 0⟩

/-- `SE (BPF_JMP | BPF_EXIT, ..)`. -/
def exit : Insn := ⟨.exit, 0, 0, 0, 0⟩

/-- `LOADMAP`. -/
def loadmap (d fd : Nat) : List Insn := [⟨.ldImm, d, pseudoMapFd, 0, fd⟩, ⟨.ldImmHigh, 0, 0, 0, 0⟩]

/-! ### The program -/

/-- The instructions of `steering_program_ext`. -/
def steeringCode (e : Endian) (queues : Nat) (flowAware : Bool) (buckets counter : Nat) : Steering Unit := do
  emitInsn (movr 6 1)
  emitInsn (movi 2 0)
  emitInsn (movr 3 10)
  emitInsn (alui .add 3 (-64))
  emitInsn (movi 4 20)
  emitInsn (call skbLoadBytes)
  let fail0 ← se (jne 0 0 0)
  emitInsn (ldx .b 7 10 (-64))
  emitInsn (alui .rsh 7 4)
  let ipv6 ← se (jeq 7 0 6)
  let fail1 ← se (jne 7 0 4)
  -- IPv4
  emitInsn (movi 9 0)
  emitInsn (ldx .w 7 10 (-52))
  emitInsn (ldx .w 1 10 (-48))
  emitInsn (alur .xor 7 1)
  emitInsn (alui .xor 7 4)
  if flowAware then
    emitInsn (ldx .h 1 10 (-58))
    emitInsn (alui .and 1 (htons e 0x3fff).toNat)
    let isFrag ← se (jne 1 0 0)
    emitInsn (ldx .b 1 10 (-55))
    let isTcp ← se (jeq 1 0 6)
    let notUdp ← se (jne 1 0 17)
    patch isTcp
    emitInsn (ldx .b 2 10 (-64))
    emitInsn (alui .and 2 0x0f)
    emitInsn (alui .lsh 2 2)
    emitInsn (movr 1 6)
    emitInsn (movr 3 10)
    emitInsn (alui .add 3 (-64))
    emitInsn (movi 4 4)
    emitInsn (call skbLoadBytes)
    let skipL4Ports ← se (jne 0 0 0)
    emitInsn (ldx .w 1 10 (-64))
    emitInsn (alur .xor 7 1)
    emitInsn (alui .mul 7 16777619)
    patch isFrag
    patch notUdp
    patch skipL4Ports
  let hashDone ← se (ja 0)
  patch ipv6
  -- IPv6
  emitInsn (ldx .b 9 10 (-58))
  emitInsn (movr 1 6)
  emitInsn (movi 2 8)
  emitInsn (movr 3 10)
  emitInsn (alui .add 3 (-64))
  emitInsn (movi 4 32)
  emitInsn (call skbLoadBytes)
  let fail2 ← se (jne 0 0 0)
  emitInsn (movi 7 6)
  for i in [0, 1, 2, 3] do
    emitInsn (ldx .w 1 10 (-64 + 4 * i))
    emitInsn (ldx .w 2 10 (-48 + 4 * i))
    emitInsn (alur .xor 1 2)
    emitInsn (alur .xor 7 1)
    emitInsn (alui .mul 7 16777619)
  if flowAware then
    let isTcp6 ← se (jeq 9 0 6)
    let notUdp6 ← se (jne 9 0 17)
    patch isTcp6
    emitInsn (movr 1 6)
    emitInsn (movi 2 40)
    emitInsn (movr 3 10)
    emitInsn (alui .add 3 (-64))
    emitInsn (movi 4 4)
    emitInsn (call skbLoadBytes)
    let skipL4Ports6 ← se (jne 0 0 0)
    emitInsn (ldx .w 1 10 (-64))
    emitInsn (alur .xor 7 1)
    emitInsn (alui .mul 7 16777619)
    patch notUdp6
    patch skipL4Ports6
  emitInsn (movi 9 1)
  patch hashDone
  emitInsn (movr 1 7)
  emitInsn (alui .rsh 1 16)
  emitInsn (alur .xor 7 1)
  emitInsn (alui .mul 7 0x45d9f3b)
  emitInsn (movr 1 7)
  emitInsn (alui .rsh 1 16)
  emitInsn (alur .xor 7 1)
  emitInsn (alui .and 7 65535)
  emitInsn (stxw 10 7 (-4))
  (loadmap 1 buckets).forM emitInsn
  emitInsn (movr 2 10)
  emitInsn (alui .add 2 (-4))
  emitInsn (call mapLookupElem)
  let fail3 ← se (jeq 0 0 0)
  emitInsn (movr 8 0)
  emitInsn (ldx .w 7 8 0)
  let existing ← se (jne 7 0 0)
  emitInsn (stxw 10 9 (-8))
  (loadmap 1 counter).forM emitInsn
  emitInsn (movr 2 10)
  emitInsn (alui .add 2 (-8))
  emitInsn (call mapLookupElem)
  let fail4 ← se (jeq 0 0 0)
  emitInsn (movi 1 1)
  emitInsn (atomicw 0 1 fetchAdd)
  emitInsn (alui .mod 1 queues)
  emitInsn (alui .add 1 1)
  emitInsn (movi 0 0)
  emitInsn (atomicw 8 1 cmpxchg)
  -- A losing contender must use the published winner, never its candidate.
  let won ← se (jne 0 0 0)
  emitInsn (movr 0 1)
  patch won
  emitInsn (movr 7 0)
  patch existing
  emitInsn (movr 0 7)
  emitInsn (alui .sub 0 1)
  emitInsn exit
  for n in [fail0, fail1, fail2, fail3, fail4] do
    patch n
  emitInsn (movi 0 0)
  emitInsn exit

/-! ### Loading the program -/

/-- What `steering_program_ext` asks of the kernel; `close` gives no answer. -/
inductive SteeringOp where
  | mapCreate (entries : Nat)
  | progLoad (code : List Insn)
  | close (fd : Nat)
deriving Repr, DecidableEq

/-- A file descriptor, or `errno`. -/
abbrev SteeringOp.Ans : SteeringOp → Type
  | .mapCreate _ => Except Nat Nat
  | .progLoad _ => Except Nat Nat
  | .close _ => Unit

def einval : Nat := 22

def e2big : Nat := 7

/-- The builder after `steering_program_ext` has emitted its instructions. -/
def steeringBuilder (e : Endian) (queues : Nat) (flowAware : Bool) (buckets counter : Nat) : SteeringBuilder :=
  ((steeringCode e queues flowAware buckets counter).run ⟨[], false⟩).2

/-- `steering_program_ext`: the file descriptor of the program, or `errno`. -/
def steeringProgramExt (e : Endian) (queues : Nat) (flowAware : Bool) :
    Program SteeringOp SteeringOp.Ans (Except Nat Nat) :=
  if queues = 0 ∨ 128 < queues then .done (.error einval)
  else .call (.mapCreate 65536) fun
    | .error err => .done (.error err)
    | .ok buckets => .call (.mapCreate 2) fun
      | .error err => .call (.close buckets) fun _ => .done (.error err)
      | .ok counter => do
        let b := steeringBuilder e queues flowAware buckets counter
        let program ← if b.overflow then .done (.error e2big) else .call (.progLoad b.code) .done
        .call (.close buckets) fun _ => .call (.close counter) fun _ => .done program

end Tayga
