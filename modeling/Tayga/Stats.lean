import Mathlib.Data.BitVec
import Tayga.Lib.Run
import Tayga.Lib.Threads

/-!
# Packet counters

Every thread counts in counters of its own and publishes them in a slot from time to time.  A snapshot asks the
threads to publish, waits for them, and adds up the slots.  The threads interrupt each other between any two operations
on what they share, the counters of one flush or one snapshot included (`statsStep`); every operation sees those before
it, as the acquire and release operations of the source make it.
-/

namespace Tayga

/-- The counters of `struct worker_priv_stats`. -/
inductive Counter where
  | rxPktsV4 | rxBytesV4 | txPktsV4 | txBytesV4
  | rxPktsV6 | rxBytesV6 | txPktsV6 | txBytesV6
  | droppedPkts | droppedBytes | errorPkts
  | txFailedFrames | txEagain | txEnobufs | txEintr | txShort | txFatal | txOther | warningsSuppressed
  | gsoRxPkts | gsoRxBytes | gsoTxPkts | gsoTxBytes
  | gsoSplitTailPkts | gsoSwSegPkts | gsoSwSegOutPkts | gsoFallbackPkts | gsoInvalidPkts | gsoTunWriteErrors
  | udpGsoRxAggregates | udpGsoRxBytes | udpGsoTxAggregates | udpGsoTxBytes | udpGsoSwFallbacks | udpGsoSwSegments
deriving DecidableEq, Repr

/-- In the order in which a flush publishes them and a snapshot adds them up. -/
def Counter.all : List Counter := [
  .rxPktsV4, .rxBytesV4, .txPktsV4, .txBytesV4,
  .rxPktsV6, .rxBytesV6, .txPktsV6, .txBytesV6,
  .droppedPkts, .droppedBytes, .errorPkts,
  .txFailedFrames, .txEagain, .txEnobufs, .txEintr, .txShort, .txFatal, .txOther, .warningsSuppressed,
  .gsoRxPkts, .gsoRxBytes, .gsoTxPkts, .gsoTxBytes,
  .gsoSplitTailPkts, .gsoSwSegPkts, .gsoSwSegOutPkts, .gsoFallbackPkts, .gsoInvalidPkts, .gsoTunWriteErrors,
  .udpGsoRxAggregates, .udpGsoRxBytes, .udpGsoTxAggregates, .udpGsoTxBytes, .udpGsoSwFallbacks, .udpGsoSwSegments]

/-- `STATS_MAX_SLOTS`. -/
def statsMaxSlots : Nat := 65

/-- The main thread, a worker, or a thread that counts for itself. -/
inductive ThreadId where
  | main
  | worker (idx : Nat)
  | other (n : Nat)
deriving DecidableEq, Repr

/-- `slot_idx`, as `stats_init` sets it for the main thread and `stats_thread_init` for the others. -/
def ThreadId.slot : ThreadId → Option Nat
  | .main => some 0
  | .worker idx => if idx < statsMaxSlots - 1 then some (idx + 1) else none
  | .other _ => none

/-! ### Operations -/

/-- What a thread does to the state at once. -/
inductive StatsOp where
  | clear
  | loadActive (slot : Nat)
  | storeActive (slot : Nat) (b : Bool)
  | loadMain
  | storeMain (b : Bool)
  | loadReq
  | nextReq
  | loadAck (slot : Nat)
  | storeAck (slot : Nat) (req : Nat)
  | publish (slot : Nat) (c : Counter)
  | loadPub (slot : Nat) (c : Counter)

/-- What it learns. -/
abbrev StatsOp.Ans : StatsOp → Type
  | .loadActive _ => Bool
  | .loadMain => Bool
  | .loadReq => Nat
  | .nextReq => Nat
  | .loadAck _ => Nat
  | .loadPub _ _ => BitVec 64
  | _ => Unit

abbrev StatsProgram := Program StatsOp StatsOp.Ans

/-- One operation. -/
def atomic (op : StatsOp) : StatsProgram op.Ans := Program.ask op

/-- `stats_flush_worker`. -/
def statsFlushWorker (slot : Option Nat) : StatsProgram Unit :=
  match slot with
  | none => pure ()
  | some idx => Counter.all.foldlM (fun _ c => atomic (.publish idx c)) ()

/-- `stats_thread_init`. -/
def statsThreadInit (slot : Option Nat) : StatsProgram Unit := do
  atomic .clear
  match slot with
  | none => pure ()
  | some idx => atomic (.storeActive idx true)

/-- `stats_thread_exit`. -/
def statsThreadExit (slot : Option Nat) : StatsProgram Unit :=
  match slot with
  | none => pure ()
  | some idx => if 0 < idx then atomic (.storeActive idx false) else pure ()

/-- `stats_check_sync_request`. -/
def statsCheckSyncRequest (slot : Option Nat) : StatsProgram Unit :=
  match slot with
  | none => pure ()
  | some idx => do
    let req ← atomic .loadReq
    let ack ← atomic (.loadAck idx)
    if req ≠ ack then
      statsFlushWorker (some idx)
      atomic (.storeAck idx req)
    else pure ()

/-- `stats_main_start`. -/
def statsMainStart : StatsProgram Unit := do
  atomic (.storeActive 0 true)
  atomic (.storeMain true)

/-- `stats_main_stop`. -/
def statsMainStop (slot : Option Nat) : StatsProgram Unit := do
  statsFlushWorker slot
  atomic (.storeActive 0 false)
  atomic (.storeMain false)

/-! ### Synchronisation -/

/-- What `stats_sync_slots` reports. -/
structure SyncOut where
  workersSynced : Bool
  unackedMask : BitVec 64
  mainSynced : Bool
  result : Int
deriving DecidableEq, Repr

/-- The slots of the workers that a synchronisation looks at. -/
def workerSlots (workers : Nat) : List Nat := List.range (min workers 64)

/-- The first loop of `stats_sync_slots`: the mask and the number of the active workers. -/
def targetWorkers (workers : Nat) : StatsProgram (BitVec 64 × Nat) :=
  (workerSlots workers).foldlM (fun r i => do
    if ← atomic (.loadActive (i + 1)) then pure (r.1 ||| 1#64 <<< i, r.2 + 1) else pure r) (0, 0)

/-- `main_acked`. -/
def mainAcked (targetMain : Bool) (req : Nat) : StatsProgram Bool :=
  if targetMain then do
    if ← atomic .loadMain then
      let ack ← atomic (.loadAck 0)
      pure (decide (req ≤ ack))
    else pure true
  else pure true

/-- A worker of the mask that is active and has not acknowledged. -/
def unacked (mask : BitVec 64) (req : Nat) (i : Nat) : StatsProgram Bool :=
  if mask.getLsbD i then do
    if ← atomic (.loadActive (i + 1)) then
      let ack ← atomic (.loadAck (i + 1))
      pure (decide (ack < req))
    else pure false
  else pure false

/-- One look at the workers, up to the first that has not acknowledged. -/
def workersAcked (mask : BitVec 64) (req : Nat) : List Nat → StatsProgram Bool
  | [] => pure true
  | i :: l => do
    if ← unacked mask req i then pure false else workersAcked mask req l

/-- The loop after the deadline: the mask of the workers that have not acknowledged. -/
def lateWorkers (workers : Nat) (mask : BitVec 64) (req : Nat) : StatsProgram (BitVec 64) :=
  (workerSlots workers).foldlM (fun late i => do
    if ← unacked mask req i then pure (late ||| 1#64 <<< i) else pure late) 0

/-- One look at all that are to acknowledge: `main_acked` and `all_acked`. -/
def lookAcks (workers : Nat) (mask : BitVec 64) (targetMain : Bool) (req : Nat) : StatsProgram (Bool × Bool) := do
  let main ← mainAcked targetMain req
  let workers ← workersAcked mask req (workerSlots workers)
  pure (main, main && workers)

/-- What is reported when the deadline has passed. -/
def timedOut (workers : Nat) (mask : BitVec 64) (req : Nat) (main : Bool) : StatsProgram SyncOut := do
  let late ← lateWorkers workers mask req
  let synced := decide (late = 0) && main
  pure ⟨synced, late, main, if synced then 0 else -1⟩

/-- The loop of `stats_sync_slots`; the deadline passes after `rounds` more looks. -/
def awaitAcks (workers : Nat) (mask : BitVec 64) (targetMain : Bool) (req : Nat) : Nat → StatsProgram SyncOut
  | 0 => do
    let acked ← lookAcks workers mask targetMain req
    if acked.2 then pure ⟨true, 0, true, 0⟩ else timedOut workers mask req acked.1
  | rounds + 1 => do
    let acked ← lookAcks workers mask targetMain req
    if acked.2 then pure ⟨true, 0, true, 0⟩ else awaitAcks workers mask targetMain req rounds

/-- `stats_sync_slots`. -/
def statsSyncSlots (workers : Nat) (slot : Option Nat) (rounds : Nat) : StatsProgram SyncOut := do
  let targetMain ← atomic .loadMain
  let target ← targetWorkers workers
  if target.2 = 0 ∧ targetMain = false then
    statsFlushWorker slot
    pure ⟨true, 0, true, 0⟩
  else
    let req ← atomic .nextReq
    statsFlushWorker slot
    match slot with
    | none => pure ()
    | some idx => atomic (.storeAck idx req)
    awaitAcks workers target.1 targetMain req rounds

/-- `struct tayga_stats`. -/
structure TaygaStats where
  counters : Counter → BitVec 64
  workersSynced : Bool
  unackedMask : BitVec 64
  mainSynced : Bool

/-- The counters of one slot, added to those of the slots before it. -/
def addSlot (out : Counter → BitVec 64) (slot : Nat) : StatsProgram (Counter → BitVec 64) :=
  Counter.all.foldlM (fun out c => do
    let v ← atomic (.loadPub slot c)
    pure (Function.update out c (out c + v))) out

/-- `stats_get_snapshot`. -/
def statsGetSnapshot (workers : Nat) (slot : Option Nat) (rounds : Nat) : StatsProgram TaygaStats := do
  let sync ← statsSyncSlots workers slot rounds
  let counters ← (List.range statsMaxSlots).foldlM addSlot fun _ => 0
  pure ⟨counters, sync.workersSynced, sync.unackedMask, sync.mainSynced⟩

/-! ### The state -/

/-- What has happened so far, for the statements to speak about; no operation reads it. -/
structure Marks where
  /-- The increments of every thread, in their order. -/
  made : ThreadId → List (Counter × BitVec 64)
  /-- The threads of these slots have registered. -/
  joined : Nat → Bool
  /-- The number of increments of the thread of a slot when it exited or stopped. -/
  settled : Nat → Nat
  /-- The number of increments due from every slot when this request number was drawn. -/
  asked : Nat → Nat → Nat
  /-- The threads that had registered when the last call of this thread began. -/
  begun : ThreadId → Nat → Bool
  /-- The number of increments due from them when that call issued its request. -/
  issued : ThreadId → Nat → Nat

/-- What the threads share, and the counters of each. -/
structure Stats where
  pub : Nat → Counter → BitVec 64
  priv : ThreadId → Counter → BitVec 64
  active : Nat → Bool
  mainRegistered : Bool
  -- 64 bits in the source; a run of `n` events gets to `n` at most (`syncReq_run_le`)
  syncReq : Nat
  syncAck : Nat → Nat
  marks : Marks

/-- The thread of a slot. -/
def slotOwner : Nat → ThreadId
  | 0 => .main
  | idx + 1 => .worker idx

/-- The thread of the slot is registered. -/
def Stats.registered (s : Stats) (slot : Nat) : Bool := if slot = 0 then s.mainRegistered else s.active slot

/-- The increments of a thread. -/
def Stats.made (s : Stats) (slot : Nat) : List (Counter × BitVec 64) := s.marks.made (slotOwner slot)

/-- The number of increments of a registered thread, or of one that exited or stopped, up to then. -/
def Stats.due (s : Stats) (slot : Nat) : Nat := if s.registered slot then (s.made slot).length else s.marks.settled slot

/-- The state after `stats_init`. -/
def statsInit : Stats where
  pub _ _ := 0
  priv _ _ := 0
  active slot := decide (slot = 0)
  mainRegistered := false
  syncReq := 0
  syncAck _ := 0
  marks := ⟨fun _ => [], fun _ => false, fun _ => 0, fun _ _ => 0, fun _ _ => false, fun _ _ => 0⟩

/-- The thread of the slot registers, or exits or stops. -/
def Stats.enroll (s : Stats) (slot : Nat) (b : Bool) : Marks :=
  if b then { s.marks with joined := Function.update s.marks.joined slot true }
  else { s.marks with settled := Function.update s.marks.settled slot (s.made slot).length }

/-- A request number is drawn. -/
def Stats.issue (s : Stats) (t : ThreadId) : Marks := { s.marks with
  asked := Function.update s.marks.asked (s.syncReq + 1) s.due
  issued := Function.update s.marks.issued t fun slot =>
    if s.marks.begun t slot then s.due slot else s.marks.issued t slot }

/-- What an operation of a thread does. -/
def perform (t : ThreadId) : (op : StatsOp) → Stats → op.Ans × Stats
  | .clear, s => ((), { s with priv := Function.update s.priv t fun _ => 0 })
  | .loadActive slot, s => (s.active slot, s)
  | .storeActive slot b, s => ((), { s with
      active := Function.update s.active slot b
      marks := if slot = 0 then s.marks else s.enroll slot b })
  | .loadMain, s => (s.mainRegistered, s)
  | .storeMain b, s => ((), { s with
      mainRegistered := b
      marks := s.enroll 0 b })
  | .loadReq, s => (s.syncReq, s)
  | .nextReq, s => (s.syncReq + 1, { s with
      syncReq := s.syncReq + 1
      marks := s.issue t })
  | .loadAck slot, s => (s.syncAck slot, s)
  | .storeAck slot req, s => ((), { s with syncAck := Function.update s.syncAck slot req })
  | .publish slot c, s => ((), { s with
      pub := Function.update s.pub slot (Function.update (s.pub slot) c (s.priv t c)) })
  | .loadPub slot c, s => (s.pub slot c, s)

/-! ### The threads -/

/-- What a thread calls. -/
inductive StatsCall where
  | threadInit
  | threadExit
  | mainStart
  | mainStop
  | flushWorker
  | checkSyncRequest
  | syncWorkers (rounds : Nat)
  | getSnapshot (rounds : Nat)
deriving DecidableEq, Repr

/-- The program of a call, and the snapshot it ends with; a thread publishes before it exits. -/
def StatsCall.program (workers : Nat) (slot : Option Nat) : StatsCall → StatsProgram (Option TaygaStats)
  | .threadInit => do
    statsThreadInit slot
    pure none
  | .threadExit => do
    statsFlushWorker slot
    statsThreadExit slot
    pure none
  | .mainStart => do
    statsMainStart
    pure none
  | .mainStop => do
    statsMainStop slot
    pure none
  | .flushWorker => do
    statsFlushWorker slot
    pure none
  | .checkSyncRequest => do
    statsCheckSyncRequest slot
    pure none
  | .syncWorkers rounds => do
    let _ ← statsSyncSlots workers slot rounds
    pure none
  | .getSnapshot rounds => do
    let out ← statsGetSnapshot workers slot rounds
    pure (some out)

/-- A worker counts and calls between `stats_thread_init` and `stats_thread_exit`, the others always. -/
def Stats.live (s : Stats) : ThreadId → Bool
  | .worker idx => s.active (idx + 1)
  | _ => true

/-- What a thread may call: one worker for each index registers once, and the main thread once. -/
def Stats.permits (s : Stats) (workers : Nat) : ThreadId → StatsCall → Bool
  | .worker idx, .threadInit => idx < workers && !s.marks.joined (idx + 1)
  | .other _, .threadInit => true
  | .worker idx, .threadExit => s.active (idx + 1)
  | .main, .mainStart => !s.marks.joined 0
  | .main, .mainStop => s.mainRegistered
  | _, .threadInit => false
  | _, .threadExit => false
  | _, .mainStart => false
  | _, .mainStop => false
  | t, _ => s.live t

/-- The state with what every thread has still to do. -/
abbrev Counting := Program.Threads ThreadId StatsOp StatsOp.Ans (Option TaygaStats) Stats

/-- The thread is between two calls. -/
def Counting.resting (m : Counting) (t : ThreadId) : Bool :=
  match m.program t with
  | .done _ => true
  | .call _ _ => false

/-- The snapshot that the last call of the thread has returned. -/
def Counting.snapshot (m : Counting) (t : ThreadId) : Option TaygaStats :=
  match m.program t with
  | .done r => r
  | .call _ _ => none

/-- One thing that happens: a thread counts between two calls, begins a call, or does its next operation. -/
inductive StatsEvent where
  | count (t : ThreadId) (c : Counter) (n : BitVec 64)
  | call (t : ThreadId) (f : StatsCall)
  | run (t : ThreadId)

/-- A thread adds to one of its counters. -/
def Stats.count (s : Stats) (t : ThreadId) (c : Counter) (n : BitVec 64) : Stats := { s with
  priv := Function.update s.priv t (Function.update (s.priv t) c (s.priv t c + n))
  marks := { s.marks with made := Function.update s.marks.made t (s.marks.made t ++ [(c, n)]) } }

/-- A thread begins a call. -/
def Stats.begin (s : Stats) (t : ThreadId) : Stats := { s with marks := { s.marks with
  begun := Function.update s.marks.begun t s.marks.joined
  issued := Function.update s.marks.issued t s.due } }

/-- What an event does; one that is not possible does nothing. -/
def statsStep (workers : Nat) (m : Counting) : StatsEvent → Counting
  | .count t c n => if m.resting t && m.state.live t then ⟨m.state.count t c n, m.program⟩ else m
  | .call t f =>
    if m.resting t && m.state.permits workers t f then
      Program.Threads.start ⟨m.state.begin t, m.program⟩ t (f.program workers t.slot)
    else m
  | .run t => m.run perform t

/-- The threads before the first event. -/
def Counting.start : Counting := ⟨statsInit, fun _ => .done none⟩

end Tayga
