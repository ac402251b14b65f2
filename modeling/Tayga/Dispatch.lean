import Tayga.FlowDispatch
import Tayga.PacketFrame
import Tayga.Lib.SlotPool

/-!
# The dispatcher

The bounded software dispatch of `experimental_io.c`.  The main thread submits packets; each is copied into a free
slot and put on the ring of the worker its flow belongs to.  A fragment that comes before the first fragment of its
datagram is parked in a linked list of its fragment context until the first one names the queue, or until the context
expires.  Every operation runs under one mutex, so it is one step.
-/

namespace Tayga

open SlotPool

/-- `DISPATCH_FRAMES`. -/
def dispatchFrames : Nat := 512

/-- `DISPATCH_FRAGMENTS`. -/
def dispatchFragments : Nat := 1024

/-- `EXP_WORKERS`. -/
def expWorkers : Nat := 8

/-- `HEADROOM`. -/
def headroom : Nat := 64

/-- `RECV_BUF_SIZE`. -/
def recvBufSize : Nat := headroom + 40 + 65535 + 12 + 1

/-- `struct fragment_entry`; `resolved` is 1 once the first fragment has named the queue and 2 for a context that
takes no more fragments. -/
structure FragmentEntry where
  key : List Byte
  used : Bool
  resolved : Nat
  queue : Nat
  count : Nat
  first : Option Nat
  last : Option Nat
  deadline : Nat
deriving Repr, DecidableEq

/-- The state of the dispatcher.  `buffer` is what `dispatch_submit` copied into the storage of a slot, `drops` the
lengths handed to `dispatch_drop`; an index of `-1` is `none`. -/
structure Dispatch where
  workers : Nat
  freeCount : Nat
  nextQueue : BitVec 32
  stop : Bool
  freeSlots : Nat → Nat
  flowQueues : Nat → Nat
  head : Nat → BitVec 32
  tail : Nat → BitVec 32
  count : Nat → Nat
  queues : Nat → Nat → Nat
  buffer : Nat → List Byte
  next : Nat → Option Nat
  tokens : Nat → PacketFrameToken
  pool : PacketFramePool
  fragments : Nat → FragmentEntry
  lastExpire : Nat
  drops : List Nat
  dispatchHeld : BitVec 64
  dispatchExpired : BitVec 64

/-- `dispatch_init`, when the storage and the mutex can be had. -/
def dispatchInit (workers : Nat) : Except Errno Dispatch :=
  if workers = 0 ∨ expWorkers < workers then .error .einval
  else
    match PacketFramePool.init (fun _ => ⟨true, recvBufSize, 0, 0, 0, .free⟩) dispatchFrames 1 with
    | .error e => .error e
    | .ok pool => .ok
      { workers := workers
        freeCount := dispatchFrames
        nextQueue := 0
        stop := false
        freeSlots := id
        flowQueues := fun _ => 0
        head := fun _ => 0
        tail := fun _ => 0
        count := fun _ => 0
        queues := fun _ _ => 0
        buffer := fun _ => []
        next := fun _ => some 0
        tokens := fun _ => ⟨0, 0, 0⟩
        pool := pool
        fragments := fun _ => ⟨List.replicate 40 0, false, 0, 0, 0, some 0, some 0, 0⟩
        lastExpire := 0
        drops := []
        dispatchHeld := 0
        dispatchExpired := 0 }

/-! ### Fragment contexts -/

/-- A context on its first use takes the key of the fragment; `opened` is the time. -/
def FragmentEntry.setup (e : FragmentEntry) (key : List Byte) (opened : Nat) : FragmentEntry :=
  if e.used then e
  else { e with
    used := true
    key := key
    first := none
    last := none
    deadline := opened + 30 }

/-- The fragment context takes or refuses a fragment at the time `now`; a fragment it takes gets a queue. -/
def FragmentEntry.gate (e : FragmentEntry) (parsed : FlowPacket) (queue now : Nat) : FragmentEntry × Option Nat :=
  if e.key ≠ parsed.fragmentKey ∨ e.resolved = 2 ∨ e.deadline ≤ now ∨
    (e.resolved = 0 ∧ ¬parsed.first ∧ e.count = 8) then (e, none)
  else if parsed.first then
    if e.resolved ≠ 0 ∧ e.queue ≠ queue then ({ e with resolved := 2 }, none)
    else ({ e with
      resolved := 1
      queue := queue }, some queue)
  else if e.resolved ≠ 0 then (e, some e.queue)
  else (e, some queue)

/-- The context of a fragment. -/
def FlowPacket.context (parsed : FlowPacket) : Nat := parsed.fragmentHash.toNat % dispatchFragments

/-- `flow_parse` of the packet behind its virtio header. -/
def classify (vnetHdrSz : Nat) (buffer : List Byte) : Option FlowPacket :=
  if buffer.length ≤ vnetHdrSz then none
  else flowParse (Mem.ofList (buffer.drop vnetHdrSz)) (buffer.length - vnetHdrSz)

/-! ### Slots and queues -/

namespace Dispatch

/-- `dispatch_drop`. -/
def drop (d : Dispatch) (bytes : Nat) : Dispatch := { d with drops := d.drops ++ [bytes] }

/-- `dispatch_free_locked`. -/
def freeLocked (d : Dispatch) (slot : Nat) : Dispatch :=
  { d with
    pool := d.pool.attempt (d.tokens slot) .free
    freeSlots := Function.update d.freeSlots d.freeCount slot
    freeCount := d.freeCount + 1 }

/-- `dispatch_queue_locked`. -/
def queueLocked (d : Dispatch) (slot queue : Nat) : Dispatch :=
  { d with
    queues := Function.update d.queues queue
      (Function.update (d.queues queue) ((d.tail queue).toNat % dispatchFrames) slot)
    tail := Function.update d.tail queue (d.tail queue + 1)
    count := Function.update d.count queue (d.count queue + 1) }

/-! ### Submission -/

/-- The queue of a flow bucket, given out in turn on its first use; a packet without a transport key has queue 0. -/
def flowQueue (d : Dispatch) (parsed : FlowPacket) : Dispatch × Nat :=
  if parsed.transport then
    let bucket := (parsed.flowHash &&& 65535).toNat
    if d.flowQueues bucket = 0 then
      let queue := d.nextQueue.toNat % d.workers
      ({ d with
        flowQueues := Function.update d.flowQueues bucket (1 + queue)
        nextQueue := d.nextQueue + 1 }, queue)
    else (d, d.flowQueues bucket - 1)
  else (d, 0)

/-- The slot on top of the free stack, acquired for a packet that waits for its first fragment (`pending`) or not. -/
def takeSlot (d : Dispatch) (pending : Bool) : Option (Nat × PacketFramePool × PacketFrameToken) :=
  if d.stop ∨ d.freeCount = 0 ∨ (pending ∧ d.freeCount ≤ 32) then none
  else
    match d.pool.acquire (d.freeSlots (d.freeCount - 1)) with
    | .error _ => none
    | .ok (pool, token) => some (d.freeSlots (d.freeCount - 1), pool, token)

/-- The packet is copied into its slot. -/
def store (d : Dispatch) (vnetHdrSz slot : Nat) (pool : PacketFramePool) (token : PacketFrameToken)
    (buffer : List Byte) : Dispatch :=
  { d with
    freeCount := d.freeCount - 1
    pool := pool.setFrame slot { pool.frames slot with length := buffer.length + headroom - vnetHdrSz }
    tokens := Function.update d.tokens slot token
    buffer := Function.update d.buffer slot buffer
    next := Function.update d.next slot none }

/-- The slot goes to the end of the list of a fragment context. -/
def hold (d : Dispatch) (i slot : Nat) : Dispatch :=
  let e := d.fragments i
  { d with
    next := match e.last with
      | some last => Function.update d.next last (some slot)
      | none => d.next
    fragments := Function.update d.fragments i { e with
      first := if e.last.isSome then e.first else some slot
      last := some slot
      count := e.count + 1 }
    dispatchHeld := d.dispatchHeld + 1 }

/-- The loop that queues the parked slots from `held` on. -/
def queueHeld (d : Dispatch) (queue : Nat) : Nat → Option Nat → Dispatch
  | 0, _ => d
  | _, none => d
  | fuel + 1, some held =>
    let d := d.queueLocked held queue
    d.queueHeld queue fuel (d.next held)

/-- The parked slots of a fragment context go behind the packet just queued. -/
def flush (d : Dispatch) (i queue : Nat) : Dispatch :=
  let d := d.queueHeld queue dispatchFrames (d.fragments i).first
  { d with fragments := Function.update d.fragments i { d.fragments i with
      first := none
      last := none
      count := 0 } }

/-- Whether a packet has to wait for the first fragment of its datagram; `fragment` is its context, if any. -/
def waits (d : Dispatch) : Option Nat → Bool
  | none => false
  | some i => (d.fragments i).resolved = 0

/-- The stored packet is parked or queued. -/
def settle (d : Dispatch) (slot queue : Nat) : Option Nat → Dispatch
  | none => d.queueLocked slot queue
  | some i => if (d.fragments i).resolved = 0 then d.hold i slot else (d.queueLocked slot queue).flush i queue

/-- A packet that was not refused is parked or queued if it gets a slot. -/
def admitPacket (d : Dispatch) (vnetHdrSz : Nat) (buffer : List Byte) (fragment : Option Nat) (queue : Nat) :
    Dispatch :=
  match d.takeSlot (d.waits fragment) with
  | none => d.drop buffer.length
  | some (slot, pool, token) => (d.store vnetHdrSz slot pool token buffer).settle slot queue fragment

/-- A classified packet under the mutex. -/
def submitLocked (d : Dispatch) (vnetHdrSz opened now : Nat) (buffer : List Byte) (parsed : FlowPacket) : Dispatch :=
  let (d, queue) := d.flowQueue parsed
  if parsed.fragmented then
    let i := parsed.context
    let (e, route) := ((d.fragments i).setup parsed.fragmentKey opened).gate parsed queue now
    let d := { d with fragments := Function.update d.fragments i e }
    match route with
    | none => d.drop buffer.length
    | some queue => d.admitPacket vnetHdrSz buffer (some i) queue
  else d.admitPacket vnetHdrSz buffer none queue

/-- `dispatch_submit`; the clock is read when a context is opened and again when its deadline is checked. -/
def submit (d : Dispatch) (vnetHdrSz opened now : Nat) (buffer : List Byte) : Dispatch :=
  match classify vnetHdrSz buffer with
  | none => d.drop buffer.length
  | some parsed => d.submitLocked vnetHdrSz opened now buffer parsed

/-! ### The other operations -/

/-- `dispatch_take`: the slot and the packet in it. -/
def take (d : Dispatch) (worker : Nat) : Dispatch × Option (Nat × List Byte) :=
  if d.count worker = 0 then (d, none)
  else
    let slot := d.queues worker ((d.head worker).toNat % dispatchFrames)
    ({ d with
      head := Function.update d.head worker (d.head worker + 1)
      count := Function.update d.count worker (d.count worker - 1)
      pool := d.pool.attempt (d.tokens slot) .translating }, some (slot, d.buffer slot))

/-- `dispatch_release`. -/
def release (d : Dispatch) (slot : Nat) : Dispatch := d.freeLocked slot

/-- The loop that drops the parked slots from `held` on. -/
def dropHeld (d : Dispatch) : Nat → Option Nat → Dispatch
  | 0, _ => d
  | _, none => d
  | fuel + 1, some slot =>
    let next := d.next slot
    ((d.drop (d.buffer slot).length).freeLocked slot).dropHeld fuel next

/-- `dispatch_expire` for one context. -/
def expireEntry (now : Nat) (d : Dispatch) (i : Nat) : Dispatch :=
  let e := d.fragments i
  if !e.used ∨ e.resolved = 2 ∨ now < e.deadline then d
  else
    let d := d.dropHeld dispatchFrames e.first
    { d with
      fragments := Function.update d.fragments i { d.fragments i with
        first := none
        last := none
        count := 0
        resolved := 2 }
      dispatchExpired := d.dispatchExpired + 1 }

/-- `dispatch_expire`, at most once a second. -/
def expire (d : Dispatch) (now : Nat) : Dispatch :=
  if now = d.lastExpire then d
  else (List.range dispatchFragments).foldl (expireEntry now) { d with lastExpire := now }

/-- `dispatch_stop`. -/
def halt (d : Dispatch) : Dispatch :=
  { d with
    stop := true
    pool := d.pool.stop }

/-- `dispatch_destroy`: the frames still in use are dropped. -/
def destroy (d : Dispatch) : Dispatch :=
  (List.range dispatchFrames).foldl (fun d i =>
    if (d.pool.frames i).state = .free then d else (d.drop (d.buffer i).length).freeLocked i) d

end Dispatch

end Tayga
