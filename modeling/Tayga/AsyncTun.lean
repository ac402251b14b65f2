import Tayga.Dispatch

/-!
# The asynchronous TUN writer

The writer of one worker in `experimental_io.c`.  A frame is copied into a free slot and queued; one write at a time is
handed to the ring, and its completion frees the slot.  The kernel's side is in the state too: the requests it has not
returned and the completion queue.  Three records say what happened so far: the frames accepted, the writes handed to
the ring and the frames counted as completed or failed.
-/

namespace Tayga

open SlotPool

/-- `ASYNC_FRAMES`. -/
def asyncFrames : Nat := 64

/-- The completions after which the device is given up: `-EBADF`, `-ENODEV`, `-EIO` and `-ESHUTDOWN`. -/
def fatalResults : List Int := [-9, -19, -5, -108]

/-- `struct io_uring_cqe`. -/
structure Cqe where
  userData : Nat
  res : Int
deriving Repr, DecidableEq

/-- A frame that was accepted: the token of its slot, the descriptor it goes to and its bytes. -/
structure AsyncFrame where
  token : PacketFrameToken
  fd : Int
  data : List Byte
deriving Repr, DecidableEq

/-- Why `async_tun_submit` refuses a frame. -/
inductive SubmitError where
  | einval
  | eshutdown
  | emsgsize
  | eio
  | eagain
  | frame (e : Errno)
deriving Repr, DecidableEq

/-- `struct async_context` with the ring and the counters.  `storage` is what was copied into the storage of a slot,
`kernel` the slots of the requests handed to the ring and not returned, `cq` the completion queue. -/
structure AsyncTun where
  pool : PacketFramePool
  tokens : Nat → PacketFrameToken
  queue : Nat → Nat
  head : BitVec 32
  tail : BitVec 32
  count : Nat
  cursor : Nat
  outstanding : Bool
  fd : Nat → Int
  failed : Bool
  failureCounted : Nat → Bool
  storage : Nat → List Byte
  kernel : List Nat
  cq : List Cqe
  asyncAccepted : Nat
  asyncCompleted : Nat
  asyncErrors : Nat
  asyncPressure : Nat
  -- the records
  accepted : List AsyncFrame
  published : List AsyncFrame
  counted : List PacketFrameToken

/-- `async_tun_init` for the context of one worker, when the ring and the storage can be had. -/
def asyncTunInit (worker : Nat) : Except Errno AsyncTun :=
  match PacketFramePool.init (fun _ => ⟨true, recvBufSize, 0, 0, 0, .free⟩) asyncFrames (worker + 1) with
  | .error e => .error e
  | .ok pool => .ok
    { pool := pool
      tokens := fun _ => ⟨0, 0, 0⟩
      queue := fun _ => 0
      head := 0
      tail := 0
      count := 0
      cursor := 0
      outstanding := false
      fd := fun _ => 0
      failed := false
      failureCounted := fun _ => false
      storage := fun _ => []
      kernel := []
      cq := []
      asyncAccepted := 0
      asyncCompleted := 0
      asyncErrors := 0
      asyncPressure := 0
      accepted := []
      published := []
      counted := [] }

namespace AsyncTun

variable (c : AsyncTun)

/-- The frame in a slot, as it was accepted. -/
def frameIn (slot : Nat) : AsyncFrame := ⟨c.tokens slot, c.fd slot, c.storage slot⟩

/-- The queued slots. -/
def queued : List Nat := ring asyncFrames c.queue c.head.toNat c.count

/-! ### Service -/

/-- Give the completed frame in `slot` back to the pool. -/
def retire (slot : Nat) : AsyncTun := { c with
  pool := (c.pool.attempt (c.tokens slot) .completed).attempt (c.tokens slot) .free
  counted := c.counted ++ [c.tokens slot]
  outstanding := false }

/-- The completion of the write of `slot` with `res`: counted as completed or failed. -/
def settle (slot : Nat) (res : Int) : AsyncTun :=
  if res ≠ (c.pool.frames slot).length then
    retire { c with
      asyncErrors := c.asyncErrors + 1
      failureCounted := Function.update c.failureCounted slot true
      failed := c.failed || res ∈ fatalResults } slot
  else retire { c with asyncCompleted := c.asyncCompleted + 1 } slot

/-- The loop of `async_tun_service` over the completion queue; `false` when a completion is of no outstanding write. -/
def reap : List Cqe → AsyncTun → AsyncTun × Bool
  | [], c => ({ c with cq := [] }, true)
  | cqe :: cq, c =>
    let slot := cqe.userData
    if asyncFrames ≤ slot ∨ c.outstanding = false ∨ (c.pool.frames slot).state ≠ .txSubmitted then
      ({ c with
        failed := true
        cq := cq }, false)
    else reap cq (c.settle slot cqe.res)

/-- The publication at the end of `async_tun_service`.  `sqe` says whether the ring has an entry and `ret` is what
`io_uring_submit` returned in the end. -/
def publish (sqe : Bool) (ret : Int) : AsyncTun × Bool :=
  if c.failed = false ∧ c.outstanding = false ∧ c.count ≠ 0 then
    let slot := c.queue (c.head.toNat % asyncFrames)
    if sqe = false then ({ c with failed := true }, false)
    else
      let c' := { c with
        pool := c.pool.attempt (c.tokens slot) .txSubmitted
        kernel := c.kernel ++ [slot]
        published := c.published ++ [⟨c.tokens slot, c.fd slot, (c.storage slot).take (c.pool.frames slot).length⟩]
        outstanding := true
        head := c.head + 1
        count := c.count - 1
        failed := c.failed || ret ≠ 1 }
      (c', !c'.failed)
  else (c, !c.failed)

/-- `async_tun_service`. -/
def service (sqe : Bool) (ret : Int) : AsyncTun × Bool :=
  match reap c.cq c with
  | (c, false) => (c, false)
  | (c, true) => c.publish sqe ret

/-! ### Submission -/

/-- The first free slot from the cursor on. -/
def freeSlot : Option Nat :=
  ((List.range asyncFrames).map fun n => (c.cursor + n) % asyncFrames).find? fun j => (c.pool.frames j).state = .free

/-- Copy the frame into the slot that was acquired and queue it. -/
def enqueue (slot : Nat) (pool : PacketFramePool) (token : PacketFrameToken) (fd : Int) (data : List Byte) :
    AsyncTun :=
  let pool := pool.setFrame slot { pool.frames slot with length := data.length }
  { c with
    pool := (pool.attempt token .translating).attempt token .pendingTx
    tokens := Function.update c.tokens slot token
    cursor := (slot + 1) % asyncFrames
    storage := Function.update c.storage slot data
    fd := Function.update c.fd slot fd
    failureCounted := Function.update c.failureCounted slot false
    queue := Function.update c.queue (c.tail.toNat % asyncFrames) slot
    tail := c.tail + 1
    count := c.count + 1
    asyncAccepted := c.asyncAccepted + 1
    accepted := c.accepted ++ [⟨token, fd, data⟩] }

/-- `async_tun_submit`. -/
def submit (fd : Int) (iov : List (List Byte)) (sqe : Bool) (ret : Int) : AsyncTun × Except SubmitError Nat :=
  let total := iov.flatten.length
  if iov = [] then (c, .error .einval)
  else if c.pool.stopping then (c, .error .eshutdown)
  else if recvBufSize < total then (c, .error .emsgsize)
  else if total = 0 then (c, .error .einval)
  else match c.service sqe ret with
    | (c, false) => (c, .error .eio)
    | (c, true) =>
      match c.freeSlot with
      | none => ({ c with asyncPressure := c.asyncPressure + 1 }, .error .eagain)
      | some slot =>
        match c.pool.acquire slot with
        | .error e => (c, .error (.frame e))
        | .ok (pool, token) => (c.enqueue slot pool token fd iov.flatten, .ok total)

/-! ### The kernel -/

/-- The kernel returns the request at position `i` of those it holds. -/
def complete (i : Nat) (res : Int) : AsyncTun :=
  match c.kernel[i]? with
  | none => c
  | some slot => { c with
    kernel := c.kernel.eraseIdx i
    cq := c.cq ++ [⟨slot, res⟩] }

/-! ### Shutdown -/

/-- What one round of the loop of `async_tun_finish` meets: the completions that arrived since the round before, and the
answers of the ring. -/
structure Round where
  completions : List (Nat × Int)
  sqe : Bool
  ret : Int

/-- The loop of `async_tun_finish`; the deadline passes after the last round. -/
def drain : List Round → AsyncTun → AsyncTun
  | [], c => c
  | r :: rounds, c =>
    if c.count = 0 ∧ c.outstanding = false then c
    else match (r.completions.foldl (fun c e => c.complete e.1 e.2) c).service r.sqe r.ret with
      | (c, false) => c
      | (c, true) => drain rounds c

/-- A frame the shutdown abandons: queued or handed to the ring, and not counted. -/
def abandoned (slot : Nat) : Bool :=
  !c.failureCounted slot && ((c.pool.frames slot).state = .pendingTx || (c.pool.frames slot).state = .txSubmitted)

/-- Count an abandoned frame as failed. -/
def abandon (slot : Nat) : AsyncTun :=
  if c.abandoned slot then { c with
    failureCounted := Function.update c.failureCounted slot true
    asyncErrors := c.asyncErrors + 1
    counted := c.counted ++ [c.tokens slot] }
  else c

/-- `async_tun_finish`, with the rounds until the deadline. -/
def finish (rounds : List Round) : AsyncTun × Bool :=
  let c := drain rounds { c with pool := c.pool.stop }
  if c.count = 0 ∧ c.outstanding = false then (c, !c.failed)
  else ((List.range asyncFrames).foldl abandon { c with failed := true }, false)

/-! ### Steps -/

/-- A call of the worker, or a completion. -/
inductive Event where
  | submit (fd : Int) (iov : List (List Byte)) (sqe : Bool) (ret : Int)
  | service (sqe : Bool) (ret : Int)
  | complete (i : Nat) (res : Int)

/-- The writer after an event. -/
def step (c : AsyncTun) : Event → AsyncTun
  | .submit fd iov sqe ret => (c.submit fd iov sqe ret).1
  | .service sqe ret => (c.service sqe ret).1
  | .complete i res => c.complete i res

end AsyncTun

end Tayga
