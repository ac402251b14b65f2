import Tayga.DispatchProofs
import Tayga.Lib.Run

/-!
# Runs of the dispatcher

The dispatcher with the threads that use it: the main thread submits packets and expires contexts, the workers take
slots and give them back.  Next to the dispatcher the state records what the threads did: the packets submitted, which
of them is in a slot, the slots the workers hold, and the packets taken.  Whatever the order of the operations, no slot
is lost and no packet is unaccounted for (`conserved_run`).
-/

namespace Tayga

open SlotPool

/-- The dispatcher and the record of its use; a packet is named by its place in `packets`. -/
structure Dispatching where
  d : Dispatch
  now : Nat
  packets : List (List Byte)
  stamp : Nat → Nat
  taken : List Nat
  took : List (Nat × Nat)

/-- A call of one of the operations. -/
inductive DispatchEvent where
  | submit (opened now : Nat) (buffer : List Byte)
  | take (worker : Nat)
  | release (slot : Nat)
  | expire (now : Nat)
  | stop
deriving Repr, DecidableEq

/-- What a call does; a slot that is not taken cannot be released. -/
def dispatchStep (vnetHdrSz : Nat) (s : Dispatching) : DispatchEvent → Dispatching
  | .submit opened now buffer =>
    let d := s.d.submit vnetHdrSz opened now buffer
    { s with
      d := d
      now := now
      packets := s.packets ++ [buffer]
      stamp :=
        if d.freeCount < s.d.freeCount then Function.update s.stamp (s.d.freeSlots d.freeCount) s.packets.length
        else s.stamp }
  | .take worker =>
    match s.d.take worker with
    | (d, some (slot, _)) => { s with
        d := d
        taken := slot :: s.taken
        took := s.took ++ [(worker, s.stamp slot)] }
    | (d, none) => { s with d := d }
  | .release slot =>
    if slot ∈ s.taken then { s with
        d := s.d.release slot
        taken := s.taken.erase slot }
    else s
  | .expire now => { s with
      d := s.d.expire now
      now := now }
  | .stop => { s with d := s.d.halt }

namespace Dispatching

/-- The threads before the first call. -/
def start (d : Dispatch) : Dispatching := ⟨d, 0, [], fun _ => 0, [], []⟩

/-- The slots in a place, read from the arrays. -/
def content (s : Dispatching) : Place → List Nat
  | .free => stack s.d.freeSlots s.d.freeCount
  | .queue w => ring dispatchFrames (s.d.queues w) (s.d.head w).toNat (s.d.count w)
  | .held i => if (s.d.fragments i).used then walk s.d.next dispatchFrames (s.d.fragments i).first else []
  | .taken => s.taken

/-- The number of slots in a place, as the dispatcher counts them. -/
def counter (s : Dispatching) : Place → Nat
  | .free => s.d.freeCount
  | .queue w => s.d.count w
  | .held i => (s.d.fragments i).count
  | .taken => s.taken.length

/-- The packets waiting in the dispatcher. -/
def inside (s : Dispatching) : Nat :=
  ∑ w ∈ Finset.range expWorkers, s.d.count w + ∑ i ∈ Finset.range dispatchFragments, (s.d.fragments i).count

/-- The slots are where the invariant says, and every packet is accounted for. -/
structure Inv (s : Dispatching) (c : Place → List Nat) : Prop where
  inv : s.d.Inv c
  taken : c .taken = s.taken
  account : s.packets.length + s.d.freeCount + s.taken.length = s.took.length + s.d.drops.length + dispatchFrames

variable {s : Dispatching} {c : Place → List Nat}

/-- The lists read from the arrays are those of the invariant. -/
theorem Inv.content_eq (h : s.Inv c) (p : Place) : s.content p = c p := by
  cases p with
  | free => exact h.inv.holds.free
  | queue w => exact h.inv.holds.queue w
  | held i =>
    have hp := h.inv.holds.held i
    simp only [content]
    split
    · rename_i hu
      exact (hp.linked hu).walk_eq (h.inv.whole.length_le _)
    · rename_i hu
      exact (hp.unused (by simpa using hu)).symm
  | taken => exact h.taken.symm

private theorem Inv.counter_eq (h : s.Inv c) (p : Place) : s.counter p = (c p).length := by
  cases p with
  | free => exact h.inv.holds.freeCount_eq
  | queue w => exact h.inv.holds.count_eq w
  | held i => exact (h.inv.holds.held i).count
  | taken => exact h.taken ▸ rfl

/-! ### Conservation -/

/-- No slot and no packet is lost. -/
structure Conserved (s : Dispatching) : Prop where
  one_place : ∀ slot < dispatchFrames, ∃! p, slot ∈ s.content p
  places : ∀ p, ∀ slot ∈ s.content p, p ∈ places ∧ slot < dispatchFrames
  sizes : ∀ p, s.counter p = ((Finset.range dispatchFrames).filter (· ∈ s.content p)).card
  stack_le : s.d.freeCount ≤ dispatchFrames
  ring_le : ∀ w, s.d.count w ≤ dispatchFrames ∧ s.d.tail w = s.d.head w + BitVec.ofNat 32 (s.d.count w)
  lists_end : ∀ i, (s.d.fragments i).used → Linked s.d.next (s.d.fragments i).first (s.content (.held i))
  workers_le : s.d.workers ≤ expWorkers
  routes : (∀ b, s.d.flowQueues b ≤ s.d.workers) ∧ ∀ i, (s.d.fragments i).queue < s.d.workers
  packets : s.packets.length = s.took.length + s.d.drops.length + s.inside

private theorem Inv.conserved (h : s.Inv c) : Conserved s where
  one_place slot hs := by
    obtain ⟨p, hp⟩ := h.inv.whole.exists_place hs
    refine ⟨p, by simpa only [h.content_eq] using hp, fun q hq => ?_⟩
    simp only [h.content_eq] at hq
    exact h.inv.whole.eq_of_mem hq hp
  places p slot hs := by
    rw [h.content_eq] at hs
    exact ⟨h.inv.whole.mem_places hs, h.inv.whole.lt hs⟩
  sizes p := by
    have hset : (Finset.range dispatchFrames).filter (· ∈ s.content p) = (c p).toFinset := by
      ext x
      simp only [h.content_eq, Finset.mem_filter, Finset.mem_range, List.mem_toFinset, and_iff_right_iff_imp]
      exact h.inv.whole.lt
    rw [hset, List.toFinset_card_of_nodup (h.inv.whole.nodup p), h.counter_eq]
  stack_le := h.inv.holds.freeCount_eq ▸ h.inv.whole.length_le _
  ring_le w := ⟨h.inv.holds.count_eq w ▸ h.inv.whole.length_le _, h.inv.holds.tail w⟩
  lists_end i hu := h.content_eq _ ▸ (h.inv.holds.held i).linked hu
  workers_le := h.inv.workers_le
  routes := ⟨h.inv.flows, h.inv.routes⟩
  packets := by
    have ht := h.inv.whole.total
    have ha := h.account
    simp only [← h.inv.holds.count_eq, ← (h.inv.holds.held _).count, ← h.inv.holds.freeCount_eq, h.taken] at ht
    unfold inside
    omega

/-! ### Steps -/

/-- The slot that a submission fills. -/
theorem top_eq (h : s.d.Inv c) {free : List Nat} {x : Nat} (hf : c .free = free ++ [x]) {n : Nat}
    (hn : n + 1 = s.d.freeCount) : s.d.freeSlots n = x := by
  have hs := h.holds.free
  rw [← hn, stack_succ, hf] at hs
  exact (List.append_inj' hs rfl).2 |> List.singleton_inj.mp

theorem Inv.submit (h : s.Inv c) {vnetHdrSz opened now : Nat} {buffer : List Byte} {c' : Place → List Nat}
    (hs : Dispatch.Submitted (classify vnetHdrSz buffer) now buffer.length s.d c
      (s.d.submit vnetHdrSz opened now buffer) c') :
    (dispatchStep vnetHdrSz s (.submit opened now buffer)).Inv c' := by
  have ha := h.account
  refine ⟨hs.inv, hs.taken.trans h.taken, ?_⟩
  rcases hs.cases with ⟨-, hf, hd⟩ | ⟨p, free, x, -, -, -, hf, hd, -⟩
  · simp only [dispatchStep, hf, hd, List.length_append, List.length_singleton]
    omega
  · simp only [dispatchStep, hd, List.length_append, List.length_singleton]
    omega

/-- The places once the head of a ring has gone to a worker. -/
def takenAt (c : Place → List Nat) (w x : Nat) (l : List Nat) : Place → List Nat :=
  Function.update (Function.update c (.queue w) l) .taken (x :: c .taken)

/-- The places once a worker has given a slot back. -/
def releasedAt (c : Place → List Nat) (slot : Nat) : Place → List Nat :=
  Function.update (Function.update c .taken ((c .taken).erase slot)) .free (c .free ++ [slot])

theorem Inv.take (h : s.Inv c) (vnetHdrSz worker : Nat) :
    dispatchStep vnetHdrSz s (.take worker) = s ∨
    ∃ x l d', c (.queue worker) = x :: l ∧ d'.flowQueues = s.d.flowQueues ∧ d'.fragments = s.d.fragments ∧
      dispatchStep vnetHdrSz s (.take worker) = { s with
        d := d'
        taken := x :: s.taken
        took := s.took ++ [(worker, s.stamp x)] } ∧
      (dispatchStep vnetHdrSz s (.take worker)).Inv (takenAt c worker x l) := by
  have ha := h.account
  rcases Dispatch.take_spec h.inv worker with ⟨-, ht⟩ | ⟨x, l, d', hq, ht, hi, hf, hd, -, hfl, hfr⟩
  · exact .inl (by simp only [dispatchStep, ht])
  · have hs : dispatchStep vnetHdrSz s (.take worker) = { s with
        d := d'
        taken := x :: s.taken
        took := s.took ++ [(worker, s.stamp x)] } := by simp only [dispatchStep, ht]
    refine .inr ⟨x, l, d', hq, hfl, hfr, hs, ?_⟩
    rw [hs]
    refine ⟨hi, by simp [takenAt, h.taken], ?_⟩
    simp only [hf, hd, List.length_append, List.length_cons, List.length_nil]
    omega

theorem Inv.release (h : s.Inv c) (vnetHdrSz : Nat) {slot : Nat} (hm : slot ∈ s.taken) :
    (dispatchStep vnetHdrSz s (.release slot)).Inv (releasedAt c slot) := by
  have ha := h.account
  have hpos := List.length_pos_of_mem hm
  simp only [dispatchStep, if_pos hm]
  refine ⟨Dispatch.release_spec h.inv (h.taken ▸ hm), by simp [releasedAt, h.taken], ?_⟩
  simp only [List.length_erase_of_mem hm, Dispatch.release, Dispatch.freeLocked]
  omega

theorem Inv.expire (h : s.Inv c) (vnetHdrSz : Nat) {now : Nat} {c' : Place → List Nat}
    (hx : Dispatch.Expired now s.d c (s.d.expire now) c') : (dispatchStep vnetHdrSz s (.expire now)).Inv c' := by
  have ha := h.account
  have hd := hx.dropped
  refine ⟨hx.inv, hx.taken.trans h.taken, ?_⟩
  simp only [dispatchStep]
  omega

theorem Inv.stop (h : s.Inv c) (vnetHdrSz : Nat) : (dispatchStep vnetHdrSz s .stop).Inv c :=
  ⟨Dispatch.halt_spec h.inv, h.taken, h.account⟩

theorem Inv.step (h : s.Inv c) (vnetHdrSz : Nat) (e : DispatchEvent) : ∃ c', (dispatchStep vnetHdrSz s e).Inv c' := by
  cases e with
  | submit opened now buffer =>
    obtain ⟨c', hs⟩ := Dispatch.submit_outcome h.inv vnetHdrSz opened now buffer
    exact ⟨c', h.submit hs⟩
  | take worker =>
    rcases h.take vnetHdrSz worker with hs | ⟨x, l, -, -, -, -, -, h'⟩
    · exact ⟨c, hs.symm ▸ h⟩
    · exact ⟨_, h'⟩
  | release slot =>
    by_cases hm : slot ∈ s.taken
    · exact ⟨_, h.release vnetHdrSz hm⟩
    · exact ⟨c, by simpa only [dispatchStep, if_neg hm] using h⟩
  | expire now =>
    obtain ⟨c', hx⟩ := Dispatch.expire_spec h.inv now
    exact ⟨c', h.expire vnetHdrSz hx⟩
  | stop => exact ⟨c, h.stop vnetHdrSz⟩

theorem Inv.start {d : Dispatch} {workers : Nat} (hd : dispatchInit workers = .ok d) :
    (Dispatching.start d).Inv Dispatch.allFree := by
  obtain ⟨hi, hdr, -⟩ := Dispatch.init_spec hd
  refine ⟨hi, rfl, ?_⟩
  have hf := hi.holds.freeCount_eq
  simp only [Dispatch.allFree, List.length_range] at hf
  simp [Dispatching.start, hf, hdr]

theorem Inv.run (h : s.Inv c) (vnetHdrSz : Nat) (es : List DispatchEvent) :
    ∃ c', (Run.run (dispatchStep vnetHdrSz) s es).Inv c' := by
  induction es generalizing s c with
  | nil => exact ⟨c, h⟩
  | cons e es ih =>
    obtain ⟨c', h'⟩ := h.step vnetHdrSz e
    exact ih h'

end Dispatching

/-- Whatever the order of the operations, every slot is in exactly one place, the counters are the sizes of the
places, and every packet submitted was taken, was dropped, or waits. -/
theorem conserved_run {d : Dispatch} {workers : Nat} (hd : dispatchInit workers = .ok d) (vnetHdrSz : Nat)
    (es : List DispatchEvent) : (Run.run (dispatchStep vnetHdrSz) (.start d) es).Conserved := by
  obtain ⟨c, h⟩ := (Dispatching.Inv.start hd).run vnetHdrSz es
  exact h.conserved

/-- A fragment of a UDP datagram of 48 bytes. -/
def fragmentPacket (flags offset : Byte) : List Byte :=
  [0x45, 0, 0, 36, 0, 44, flags, offset, 64, 17, 0, 0, 192, 0, 0, 1, 192, 0, 0, 2, 0, 9, 0, 53, 0, 48, 0, 1] ++
    List.replicate 8 0

/-- The second fragment of a datagram waits for the first one; a worker takes both and gives a slot back. -/
def parkedRun : List DispatchEvent :=
  [.submit 100 100 (fragmentPacket 0x20 2), .submit 100 101 (fragmentPacket 0x20 0), .take 0, .take 0, .release 510,
    .expire 102]

/-- What the record says of it: the second fragment waits, then both are taken in order. -/
theorem parkedRun_record {d : Dispatch} (hd : dispatchInit 2 = .ok d) :
    ((Run.run (dispatchStep 0) (.start d) (parkedRun.take 1)).d.fragments 629).count = 1 ∧
    (Run.run (dispatchStep 0) (.start d) parkedRun).took = [(0, 1), (0, 0)] ∧
      (Run.run (dispatchStep 0) (.start d) parkedRun).taken = [511] := by
  have hrun : (match dispatchInit 2 with
      | .ok d => decide (((Run.run (dispatchStep 0) (.start d) (parkedRun.take 1)).d.fragments 629).count = 1 ∧
        (Run.run (dispatchStep 0) (.start d) parkedRun).took = [(0, 1), (0, 0)] ∧
        (Run.run (dispatchStep 0) (.start d) parkedRun).taken = [511])
      | .error _ => false) = true := by decide +kernel
  rw [hd] at hrun
  exact of_decide_eq_true hrun

theorem conserved_run_parked : ∃ d, dispatchInit 2 = .ok d ∧
    let s := Run.run (dispatchStep 0) (.start d) parkedRun
    s.Conserved ∧ s.took = [(0, 1), (0, 0)] ∧ s.taken = [511] := by
  obtain ⟨d, hd⟩ := Dispatch.exists_init (by decide : 0 < 2) (by decide)
  exact ⟨d, hd, conserved_run hd 0 parkedRun, (parkedRun_record hd).2⟩

end Tayga
