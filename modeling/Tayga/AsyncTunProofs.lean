import Tayga.AsyncTun
import Tayga.FrameRuns

/-!
# The writer keeps its books

The invariant of the asynchronous writer (`AsyncTun.Inv`): which slot the one outstanding write is in, which slots are
queued, and how the frames accepted, published and counted so far add up.  One lemma for each thing that happens to a
slot: it is queued (`Inv.enqueue`), its write is published (`Inv.publish`), its write is completed (`Inv.settle`).
-/

namespace Tayga

open SlotPool

/-! ### Allowed transitions -/

namespace PacketFramePool

variable {p : PacketFramePool} {token : PacketFrameToken} {f : PacketFrame} {state : FrameState}

private theorem attempt_move (hl : p.lookup token = .ok f) (ha : p.allowed f state = true) (hne : state ≠ .free)
    (hg : f.geometry = true) : p.attempt token state = p.setFrame token.slot { f with state := state } := by
  simp [attempt, transition, hl, ha, hne, hg]

private theorem attempt_release (hl : p.lookup token = .ok f) (ha : p.allowed f .free = true) :
    p.attempt token .free = p.setFrame token.slot { f with
      state := .free
      length := 0
      offset := 0 } := by
  simp [attempt, transition, hl, ha]

private theorem setFrame_setFrame (p : PacketFramePool) (slot : Nat) (f f' : PacketFrame) :
    (p.setFrame slot f).setFrame slot f' = p.setFrame slot f' := by
  simp [setFrame, Function.update_idem]

/-- Another slot's token finds what it found. -/
private theorem lookup_setFrame_of_ne (p : PacketFramePool) {slot : Nat} (hs : token.slot ≠ slot) (f : PacketFrame) :
    (p.setFrame slot f).lookup token = p.lookup token := by
  simp [lookup, setFrame, Function.update_of_ne hs]

end PacketFramePool

open PacketFramePool

namespace AsyncTun

variable {c : AsyncTun} {o : Option Nat} {slot : Nat}

/-! ### The invariant -/

/-- A slot that is queued or whose write is outstanding: its token is that of its present use, and its bytes are those
of the frame. -/
structure Busy (c : AsyncTun) (slot : Nat) : Prop where
  lt : slot < asyncFrames
  lookup : c.pool.lookup (c.tokens slot) = .ok (c.pool.frames slot)
  token : (c.tokens slot).slot = slot
  length : (c.pool.frames slot).length = (c.storage slot).length
  pos : 0 < (c.storage slot).length
  le : (c.storage slot).length ≤ recvBufSize
  fresh : c.failureCounted slot = false

/-- The state of the writer while the write of `o` is outstanding. -/
structure Inv (c : AsyncTun) (o : Option Nat) : Prop where
  outstanding : c.outstanding = o.isSome
  tail : c.tail.toNat % asyncFrames = (c.head.toNat + c.count) % asyncFrames
  size : c.pool.count = asyncFrames
  opened : c.pool.backendClosed = false
  area : ∀ s < asyncFrames, (c.pool.frames s).storage = true ∧ (c.pool.frames s).capacity = recvBufSize ∧
    (c.pool.frames s).offset = 0
  state : ∀ s < asyncFrames, (c.pool.frames s).state =
    if o = some s then .txSubmitted else if s ∈ c.queued then .pendingTx else .free
  nodup : (o.toList ++ c.queued).Nodup
  busy : ∀ s ∈ o.toList ++ c.queued, Busy c s
  kernel : c.kernel ++ c.cq.map Cqe.userData = [] ∨ c.kernel ++ c.cq.map Cqe.userData = o.toList
  accepted : c.accepted = c.published ++ c.queued.map c.frameIn
  published : ∃ done, c.published = done ++ o.toList.map c.frameIn ∧ c.counted = done.map AsyncFrame.token
  number : c.asyncAccepted = c.accepted.length
  total : c.counted.length = c.asyncCompleted + c.asyncErrors
  generations : ∀ f ∈ c.accepted, f.token.generation ≤ (c.pool.frames f.token.slot).generation
  distinct : (c.accepted.map AsyncFrame.token).Nodup

/-- Two writers that agree on the frames, the queue and the records. -/
theorem Inv.congr {c' : AsyncTun} (h : Inv c o) (hc : c' = { c with
      failed := c'.failed
      asyncPressure := c'.asyncPressure
      cursor := c'.cursor
      pool := { c.pool with stopping := c'.pool.stopping } }) : Inv c' o := by
  rw [hc]
  exact { h with busy := fun s hs => { h.busy s hs with } }

theorem Inv.geometry (h : Inv c o) (hs : slot ∈ o.toList ++ c.queued) :
    (c.pool.frames slot).geometry = true := by
  have hb := h.busy slot hs
  obtain ⟨h1, h2, h3⟩ := h.area slot hb.lt
  rw [geometry_iff, h2, h3, hb.length]
  exact ⟨h1, Nat.zero_le _, hb.le⟩

/-- A free slot is not in use. -/
theorem Inv.idle (h : Inv c o) (hlt : slot < asyncFrames) (hfree : (c.pool.frames slot).state = .free) :
    slot ∉ o.toList ++ c.queued := by
  intro hm
  rw [h.state slot hlt] at hfree
  split at hfree
  · cases hfree
  · rename_i ho
    rcases List.mem_append.1 hm with hm | hm
    · exact ho (Option.mem_toList.1 hm)
    · rw [if_pos hm] at hfree
      cases hfree

/-- A busy slot that the pool's change of another slot does not touch. -/
theorem Busy.setFrame (h : Busy c slot) {c' : AsyncTun} {s : Nat} (hne : slot ≠ s) {f : PacketFrame}
    (hpool : c'.pool = c.pool.setFrame s f) (ht : c'.tokens slot = c.tokens slot)
    (hst : c'.storage slot = c.storage slot) (hfc : c'.failureCounted slot = c.failureCounted slot) :
    Busy c' slot := by
  have hf : c'.pool.frames slot = c.pool.frames slot := by
    rw [hpool, frames_setFrame, if_neg hne]
  refine ⟨h.lt, ?_, ?_, ?_, ?_, ?_, ?_⟩
  · rw [hf, ht, hpool, lookup_setFrame_of_ne _ (by rw [h.token]; exact hne)]
    exact h.lookup
  · rw [ht]
    exact h.token
  · rw [hf, hst]
    exact h.length
  · rw [hst]
    exact h.pos
  · rw [hst]
    exact h.le
  · rw [hfc]
    exact h.fresh

/-! ### Completion -/

/-- The frame of a completed write is free. -/
private theorem Inv.retire_pool (h : Inv c (some slot)) :
    (c.pool.attempt (c.tokens slot) .completed).attempt (c.tokens slot) .free =
      c.pool.setFrame slot { c.pool.frames slot with
        state := .free
        length := 0
        offset := 0 } := by
  have hmem : slot ∈ (some slot).toList ++ c.queued := by simp
  have hb := h.busy slot hmem
  have hst : (c.pool.frames slot).state = .txSubmitted := by
    rw [h.state slot hb.lt, if_pos rfl]
  have hmove : c.pool.attempt (c.tokens slot) .completed = _ :=
    attempt_move hb.lookup (by simp [allowed, hst]) (by decide) (h.geometry hmem)
  rw [hmove, hb.token]
  have hl : (c.pool.setFrame slot { c.pool.frames slot with state := .completed }).lookup (c.tokens slot) =
      .ok { c.pool.frames slot with state := .completed } := by
    have := lookup_setFrame (g := { c.pool.frames slot with state := .completed }) hb.lookup rfl
    rw [hb.token] at this
    exact this
  rw [attempt_release hl (by simp [allowed]), hb.token, setFrame_setFrame]

/-- A completed write is counted once, as completed or as failed. -/
theorem Inv.retire (h : Inv c (some slot)) (hk : c.kernel = []) {completed errors : Nat} {failed : Bool}
    {failureCounted : Nat → Bool} (ht : completed + errors = c.asyncCompleted + c.asyncErrors + 1)
    (hfc : ∀ s ≠ slot, failureCounted s = c.failureCounted s) :
    Inv { AsyncTun.retire { c with
        asyncCompleted := completed
        asyncErrors := errors
        failed := failed
        failureCounted := failureCounted } slot with cq := [] } none := by
  have hnd : slot ∉ c.queued ∧ c.queued.Nodup := List.nodup_cons.1 h.nodup
  have hlt := (h.busy slot (by simp)).lt
  have hpool := h.retire_pool
  constructor
  case outstanding => rfl
  case tail => exact h.tail
  case size =>
    simp only [AsyncTun.retire, hpool]
    exact h.size
  case opened =>
    simp only [AsyncTun.retire, hpool]
    exact h.opened
  case area =>
    intro s hs
    simp only [AsyncTun.retire, hpool, frames_setFrame]
    split
    · obtain ⟨h1, h2, -⟩ := h.area slot hlt
      exact ⟨h1, h2, rfl⟩
    · exact h.area s hs
  case state =>
    intro s hs
    simp only [AsyncTun.retire, hpool, frames_setFrame]
    split
    · rename_i he
      subst he
      exact (if_neg hnd.1).symm
    · rename_i hne
      rw [h.state s hs, if_neg (by simpa using Ne.symm hne)]
      rfl
  case nodup => exact hnd.2
  case busy =>
    intro s hs
    have hne : s ≠ slot := fun he => hnd.1 (he ▸ hs)
    exact (h.busy s (List.mem_append_right _ hs)).setFrame hne hpool rfl rfl (hfc s hne)
  case kernel =>
    left
    simp only [AsyncTun.retire, hk]
    rfl
  case accepted => exact h.accepted
  case published =>
    obtain ⟨done, hp, hc⟩ := h.published
    refine ⟨done ++ [c.frameIn slot], ?_, ?_⟩
    · rw [Option.toList_none, List.map_nil, List.append_nil]
      exact hp
    · simp only [AsyncTun.retire, hc, List.map_append]
      rfl
  case number => exact h.number
  case total =>
    simp only [AsyncTun.retire, List.length_append, h.total, List.length_singleton]
    exact ht.symm
  case generations =>
    intro f hf
    simp only [AsyncTun.retire, hpool, frames_setFrame]
    split
    · rename_i he
      rw [← he]
      exact h.generations f hf
    · exact h.generations f hf
  case distinct => exact h.distinct

theorem Inv.settle (h : Inv c (some slot)) (hk : c.kernel = []) (res : Int) :
    Inv { c.settle slot res with cq := [] } none := by
  unfold AsyncTun.settle
  split
  · exact h.retire hk (by omega) fun s hs => Function.update_of_ne hs _ _
  · exact h.retire hk (by omega) fun _ _ => rfl

/-! ### Publication -/

/-- The cells of the ring go on where the 32-bit counters go round. -/
private theorem succ_cell (x : BitVec 32) : (x.toNat + 1) % asyncFrames = (x + 1).toNat % asyncFrames := by
  have h1 : (1 : BitVec 32).toNat = 1 := rfl
  rw [BitVec.toNat_add, h1]
  simp only [asyncFrames]
  omega

/-- The head of the queue. -/
theorem queued_cons (hc : c.count ≠ 0) : c.queued = c.queue (c.head.toNat % asyncFrames) ::
    ring asyncFrames c.queue (c.head + 1).toNat (c.count - 1) := by
  obtain ⟨n, hn⟩ := Nat.exists_eq_succ_of_ne_zero hc
  unfold queued
  rw [hn, Nat.succ_eq_add_one, ring_pop, Nat.add_sub_cancel]
  refine congrArg _ (ring_congr_head ?_ _ _)
  rw [succ_cell]

/-- The state after the head of the queue has been handed to the ring. -/
def published' (c : AsyncTun) (failed : Bool) : AsyncTun :=
  let slot := c.queue (c.head.toNat % asyncFrames)
  { c with
    pool := c.pool.attempt (c.tokens slot) .txSubmitted
    kernel := c.kernel ++ [slot]
    published := c.published ++ [⟨c.tokens slot, c.fd slot, (c.storage slot).take (c.pool.frames slot).length⟩]
    outstanding := true
    head := c.head + 1
    count := c.count - 1
    failed := failed }

theorem Inv.published' (h : Inv c none) (hc : c.count ≠ 0) (failed : Bool) :
    Inv (c.published' failed) (some (c.queue (c.head.toNat % asyncFrames))) := by
  have hq := queued_cons hc
  generalize hslot : c.queue (c.head.toNat % asyncFrames) = slot at hq ⊢
  generalize hrest : ring asyncFrames c.queue (c.head + 1).toNat (c.count - 1) = rest at hq
  have hnd := h.nodup
  rw [Option.toList_none, List.nil_append, hq, List.nodup_cons] at hnd
  have hmem : slot ∈ (none : Option Nat).toList ++ c.queued := by simp [hq]
  have hb := h.busy slot hmem
  have hst : (c.pool.frames slot).state = .pendingTx := by
    rw [h.state slot hb.lt, if_neg nofun, if_pos (by simp [hq])]
  have hpos : (c.pool.frames slot).length ≠ 0 := by
    rw [hb.length]
    exact Nat.ne_of_gt hb.pos
  have hpool : c.pool.attempt (c.tokens slot) .txSubmitted =
      c.pool.setFrame slot { c.pool.frames slot with state := .txSubmitted } := by
    have hmove : c.pool.attempt (c.tokens slot) .txSubmitted = _ :=
      attempt_move hb.lookup (by simp [allowed, hst, h.opened, hpos]) (by decide) (h.geometry hmem)
    rw [hmove, hb.token]
  have hkernel : c.kernel = [] ∧ c.cq.map Cqe.userData = [] := by
    rcases h.kernel with hk | hk <;> exact List.append_eq_nil_iff.1 hk
  have hc' : c.published' failed = { c with
      pool := c.pool.setFrame slot { c.pool.frames slot with state := .txSubmitted }
      kernel := [slot]
      published := c.published ++ [c.frameIn slot]
      outstanding := true
      head := c.head + 1
      count := c.count - 1
      failed := failed } := by
    simp only [AsyncTun.published', hslot, hpool, hkernel.1, hb.length, List.take_length, List.nil_append]
    rfl
  have hq' : (c.published' failed).queued = rest := hrest
  have hold : ∀ s < asyncFrames, s ≠ slot → (c.pool.frames s).state = if s ∈ rest then .pendingTx else .free := by
    intro s hs hne
    rw [h.state s hs, if_neg nofun, hq]
    simp only [List.mem_cons, hne, false_or]
  rw [hc'] at hq' ⊢
  constructor
  case outstanding => rfl
  case tail =>
    have ht := h.tail
    have hs := succ_cell c.head
    simp only [asyncFrames] at ht hs ⊢
    omega
  case size => exact h.size
  case opened => exact h.opened
  case area =>
    intro s hs
    simp only [frames_setFrame]
    split
    · exact h.area slot hb.lt
    · exact h.area s hs
  case state =>
    intro s hs
    simp only [frames_setFrame, hq']
    split
    · rename_i he
      rw [he, if_pos rfl]
    · rename_i hne
      rw [hold s hs hne]
      exact (if_neg (by simpa using Ne.symm hne)).symm
  case nodup =>
    rw [hq']
    exact List.nodup_cons.2 hnd
  case busy =>
    intro s hs
    rw [hq'] at hs
    by_cases hne : s = slot
    · subst hne
      have hl := lookup_setFrame (g := { c.pool.frames s with state := .txSubmitted }) hb.lookup rfl
      rw [hb.token] at hl
      refine ⟨hb.lt, ?_, hb.token, ?_, hb.pos, hb.le, hb.fresh⟩
      · rw [frames_setFrame, if_pos rfl]
        exact hl
      · rw [frames_setFrame, if_pos rfl]
        exact hb.length
    · have hs' : s ∈ (none : Option Nat).toList ++ c.queued := by
        rw [hq]
        exact hs
      exact (h.busy s hs').setFrame hne rfl rfl rfl rfl
  case kernel =>
    right
    rw [hkernel.2]
    rfl
  case accepted =>
    rw [hq', h.accepted, hq, List.map_cons, List.append_assoc]
    rfl
  case published =>
    obtain ⟨done, hp, hcounted⟩ := h.published
    refine ⟨c.published, rfl, ?_⟩
    rw [hcounted, hp, Option.toList_none, List.map_nil, List.append_nil]
  case number => exact h.number
  case total => exact h.total
  case generations =>
    intro f hf
    simp only [frames_setFrame]
    split
    · rename_i he
      rw [← he]
      exact h.generations f hf
    · exact h.generations f hf
  case distinct => exact h.distinct

/-! ### Acceptance -/

/-- The frame of an accepted packet is pending, with its length and a new generation. -/
private theorem Inv.enqueue_pool (h : Inv c o) (hlt : slot < asyncFrames) {pool : PacketFramePool}
    {token : PacketFrameToken} (hacq : c.pool.acquire slot = .ok (pool, token)) {n : Nat} (hn : n ≤ recvBufSize) :
    let f : PacketFrame := { c.pool.frames slot with
      generation := (c.pool.frames slot).generation + 1
      offset := 0
      length := n
      state := .pendingTx }
    ((pool.setFrame slot { pool.frames slot with length := n }).attempt token .translating).attempt token .pendingTx =
      c.pool.setFrame slot f ∧ (c.pool.setFrame slot f).lookup token = .ok f := by
  intro f
  obtain ⟨hs, -, -, -, rfl, rfl⟩ := acquire_eq_ok hacq
  obtain ⟨h1, h2, -⟩ := h.area slot hlt
  -- whatever the state, the token finds the frame of its generation
  have hl : ∀ st, (c.pool.setFrame slot { f with state := st }).lookup
      ⟨slot, (c.pool.frames slot).generation + 1, c.pool.identity⟩ = .ok { f with state := st } := by
    intro st
    rw [lookup_eq_ok]
    refine ⟨fun hf => hf rfl, ?_, by rw [frames_setFrame, if_pos rfl]⟩
    rintro (hst | hst | hst)
    · exact absurd hs (Nat.not_lt.2 hst)
    · exact Nat.succ_ne_zero _ hst
    · rw [frames_setFrame, if_pos rfl] at hst
      exact hst rfl
  have hg : ∀ st, ({ f with state := st } : PacketFrame).geometry = true := by
    intro st
    rw [geometry_iff]
    refine ⟨h1, Nat.zero_le _, ?_⟩
    show n ≤ (c.pool.frames slot).capacity - 0
    rw [h2]
    exact hn
  have hstart : (c.pool.setFrame slot { c.pool.frames slot with
      generation := (c.pool.frames slot).generation + 1
      offset := 0
      length := 0
      state := .received }).setFrame slot { (c.pool.setFrame slot { c.pool.frames slot with
      generation := (c.pool.frames slot).generation + 1
      offset := 0
      length := 0
      state := .received }).frames slot with length := n } =
        c.pool.setFrame slot { f with state := .received } := by
    rw [frames_setFrame, if_pos rfl, setFrame_setFrame]
  have hmove1 : (c.pool.setFrame slot { f with state := .received }).attempt
      ⟨slot, (c.pool.frames slot).generation + 1, c.pool.identity⟩ .translating =
        c.pool.setFrame slot { f with state := .translating } := by
    rw [attempt_move (hl .received) (by simp [allowed]) (by decide) (hg .received), setFrame_setFrame]
  have hmove2 : (c.pool.setFrame slot { f with state := .translating }).attempt
      ⟨slot, (c.pool.frames slot).generation + 1, c.pool.identity⟩ .pendingTx = c.pool.setFrame slot f := by
    rw [attempt_move (hl .translating) (by simp [allowed]) (by decide) (hg .translating), setFrame_setFrame]
  exact ⟨by rw [hstart, hmove1, hmove2], hl .pendingTx⟩

/-- Distinct slots are at most as many as there are. -/
private theorem length_le_frames {l : List Nat} (hn : l.Nodup) (hl : ∀ s ∈ l, s < asyncFrames) :
    l.length ≤ asyncFrames := by
  have hs : l ⊆ List.range asyncFrames := fun s hs => List.mem_range.2 (hl s hs)
  simpa using (List.subperm_of_subset hn hs).length_le

theorem Inv.enqueue (h : Inv c o) (hlt : slot < asyncFrames) {pool : PacketFramePool} {token : PacketFrameToken}
    (hacq : c.pool.acquire slot = .ok (pool, token)) (fd : Int) {data : List Byte} (h0 : data.length ≠ 0)
    (hle : data.length ≤ recvBufSize) : Inv (c.enqueue slot pool token fd data) o := by
  obtain ⟨hpool, hlookup⟩ := h.enqueue_pool hlt hacq hle
  obtain ⟨-, -, hfree, -, -, htoken⟩ := acquire_eq_ok hacq
  have hidle := h.idle hlt hfree
  have hidle' := hidle
  rw [List.mem_append, not_or] at hidle'
  have hcount : c.count < asyncFrames := by
    have hl : (slot :: c.queued).length ≤ asyncFrames := by
      refine length_le_frames (List.nodup_cons.2 ⟨hidle'.2, (List.nodup_append.1 h.nodup).2.1⟩) ?_
      intro s hs
      rcases List.mem_cons.1 hs with rfl | hs
      · exact hlt
      · exact (h.busy s (List.mem_append_right _ hs)).lt
    rw [List.length_cons, queued, length_ring] at hl
    exact hl
  have hq : (c.enqueue slot pool token fd data).queued = c.queued ++ [slot] := by
    unfold AsyncTun.queued AsyncTun.enqueue
    rw [h.tail]
    exact ring_push hcount _ _ _
  have hframe : ∀ s ∈ o.toList ++ c.queued, (c.enqueue slot pool token fd data).frameIn s = c.frameIn s := by
    intro s hs
    have hne : s ≠ slot := fun he => hidle (he ▸ hs)
    simp only [AsyncTun.frameIn, AsyncTun.enqueue, Function.update_of_ne hne]
  constructor
  case outstanding => exact h.outstanding
  case tail =>
    have ht := h.tail
    have hs := succ_cell c.tail
    simp only [AsyncTun.enqueue, asyncFrames] at ht hs ⊢
    omega
  case size =>
    simp only [AsyncTun.enqueue, hpool]
    exact h.size
  case opened =>
    simp only [AsyncTun.enqueue, hpool]
    exact h.opened
  case area =>
    intro s hs
    simp only [AsyncTun.enqueue, hpool, frames_setFrame]
    split
    · obtain ⟨h1, h2, -⟩ := h.area slot hlt
      exact ⟨h1, h2, rfl⟩
    · exact h.area s hs
  case state =>
    intro s hs
    rw [hq]
    simp only [AsyncTun.enqueue, hpool, frames_setFrame]
    split
    · rename_i he
      subst he
      rw [if_neg fun ho => hidle'.1 (Option.mem_toList.2 ho), if_pos (by simp)]
    · rename_i hne
      rw [h.state s hs]
      simp only [List.mem_append, List.mem_singleton, hne, or_false]
  case nodup =>
    rw [hq, ← List.append_assoc, List.nodup_append]
    refine ⟨h.nodup, List.nodup_singleton _, ?_⟩
    rintro s hs t ht rfl
    rw [List.mem_singleton] at ht
    exact hidle (ht ▸ hs)
  case busy =>
    intro s hs
    rw [hq, ← List.append_assoc, List.mem_append, List.mem_singleton] at hs
    rcases hs with hs | rfl
    · have hne : s ≠ slot := fun he => hidle (he ▸ hs)
      exact (h.busy s hs).setFrame hne hpool (Function.update_of_ne hne _ _) (Function.update_of_ne hne _ _)
        (Function.update_of_ne hne _ _)
    · refine ⟨hlt, ?_, ?_, ?_, ?_, ?_, Function.update_self ..⟩ <;>
        simp only [AsyncTun.enqueue, hpool, frames_setFrame, Function.update_self, if_true]
      · exact hlookup
      · rw [htoken]
      · omega
      · exact hle
  case kernel => exact h.kernel
  case accepted =>
    have hold : c.queued.map (c.enqueue slot pool token fd data).frameIn = c.queued.map c.frameIn :=
      List.map_congr_left fun s hs => hframe s (List.mem_append_right _ hs)
    rw [hq, List.map_append, hold, ← List.append_assoc]
    simp only [AsyncTun.enqueue, h.accepted, List.map_singleton, AsyncTun.frameIn, Function.update_self]
  case published =>
    obtain ⟨done, hp, hc⟩ := h.published
    refine ⟨done, ?_, hc⟩
    rw [List.map_congr_left fun s hs => hframe s (List.mem_append_left _ hs)]
    exact hp
  case number =>
    simp only [AsyncTun.enqueue, List.length_append, h.number, List.length_singleton]
  case total => exact h.total
  case generations =>
    intro f hf
    rcases List.mem_append.1 hf with hf | hf
    · have hgen := h.generations f hf
      simp only [AsyncTun.enqueue, hpool, frames_setFrame]
      split
      · rename_i he
        rw [he] at hgen
        exact Nat.le_succ_of_le hgen
      · exact hgen
    · rw [List.mem_singleton] at hf
      subst hf
      have hslot : token.slot = slot := by rw [htoken]
      have hgen : token.generation = (c.pool.frames slot).generation + 1 := by rw [htoken]
      simp only [AsyncTun.enqueue, hpool, frames_setFrame, hslot, if_true, hgen]
      exact Nat.le_refl _
  case distinct =>
    simp only [AsyncTun.enqueue, List.map_append, List.map_singleton, List.nodup_append]
    refine ⟨h.distinct, List.nodup_singleton _, ?_⟩
    rintro t ht u hu rfl
    obtain ⟨f, hf, rfl⟩ := List.mem_map.1 ht
    rw [List.mem_singleton] at hu
    have hgen := h.generations f hf
    rw [hu, htoken] at hgen
    exact absurd hgen (Nat.not_succ_le_self _)

end AsyncTun

end Tayga
