import Tayga.AsyncTunProofs
import Tayga.DispatchProofs

/-!
# The law of the asynchronous writer

Every call of the worker and every completion keeps the books of the writer (`Inv.step`), so in every interleaving of
submissions, services and completions the writes go out in the order of acceptance, one at a time, from buffers nobody
touches, and each accepted frame is completed, failed, queued or outstanding; after the shutdown each is completed or
failed, and counted once (`async_tun_run`).
-/

namespace Tayga

open SlotPool PacketFramePool Run

namespace AsyncTun

variable {c : AsyncTun} {o : Option Nat}

/-! ### Service -/

/-- The completion queue is empty, or holds the completion of the outstanding write. -/
private theorem Inv.reap_cases (h : Inv c o) : (c.cq = [] ∧ reap c.cq c = (c, true)) ∨
    ∃ slot res, o = some slot ∧ c.kernel = [] ∧ reap c.cq c = ({ c.settle slot res with cq := [] }, true) := by
  cases hcq : c.cq with
  | nil =>
    left
    refine ⟨rfl, ?_⟩
    rw [reap, ← hcq]
  | cons cqe cq =>
    right
    have hk : c.kernel = [] ∧ cq = [] ∧ o = some cqe.userData := by
      rcases h.kernel with hk | hk <;> rw [hcq, List.map_cons] at hk
      · exact absurd (List.append_eq_nil_iff.1 hk).2 (List.cons_ne_nil _ _)
      · cases o with
        | none => exact absurd (List.append_eq_nil_iff.1 hk).2 (List.cons_ne_nil _ _)
        | some s =>
          rcases List.append_eq_singleton_iff.1 hk with ⟨hnil, hcons⟩ | ⟨-, hcons⟩
          · obtain ⟨rfl, htail⟩ := List.cons.inj hcons
            exact ⟨hnil, List.map_eq_nil_iff.1 htail, rfl⟩
          · cases hcons
    obtain ⟨hkernel, rfl, rfl⟩ := hk
    have hlt := (h.busy cqe.userData (by simp)).lt
    refine ⟨cqe.userData, cqe.res, rfl, hkernel, ?_⟩
    have hst := h.state cqe.userData hlt
    rw [if_pos rfl] at hst
    rw [reap, if_neg, reap]
    rw [h.outstanding, hst]
    simp [Nat.not_le.2 hlt]

/-- `async_tun_service` publishes nothing, or the head of the queue while nothing is outstanding. -/
private theorem publish_cases (c : AsyncTun) (sqe : Bool) (ret : Int) :
    (∃ failed, (c.publish sqe ret).1 = { c with failed := failed }) ∨
    (c.outstanding = false ∧ c.count ≠ 0 ∧ ∃ failed, (c.publish sqe ret).1 = c.published' failed) := by
  unfold publish
  split
  · rename_i hc
    dsimp only
    split
    · exact .inl ⟨true, rfl⟩
    · exact .inr ⟨hc.2.1, hc.2.2, _, rfl⟩
  · exact .inl ⟨c.failed, rfl⟩

/-- The slots whose writes are not completed are still busy, with the same bytes. -/
def Keeps (c c' : AsyncTun) (o' : Option Nat) : Prop :=
  ∀ s ∈ c.kernel ++ c.queued, s ∈ o'.toList ++ c'.queued ∧ c'.storage s = c.storage s

private theorem Inv.kernel_sub (h : Inv c o) {s : Nat} (hs : s ∈ c.kernel ++ c.queued) : s ∈ o.toList ++ c.queued := by
  rw [List.mem_append] at hs ⊢
  refine hs.imp_left fun hs => ?_
  rcases h.kernel with hk | hk
  · rw [(List.append_eq_nil_iff.1 hk).1] at hs
    cases hs
  · rw [← hk]
    exact List.mem_append_left _ hs

theorem Inv.publish (h : Inv c o) (sqe : Bool) (ret : Int) :
    ∃ o', Inv (c.publish sqe ret).1 o' ∧ Keeps c (c.publish sqe ret).1 o' := by
  rcases publish_cases c sqe ret with ⟨failed, he⟩ | ⟨hout, hc, failed, he⟩ <;> rw [he]
  · exact ⟨o, h.congr rfl, fun s hs => ⟨h.kernel_sub hs, rfl⟩⟩
  · have ho : o = none := by
      rw [h.outstanding] at hout
      simpa using hout
    subst ho
    refine ⟨_, h.published' hc failed, fun s hs => ⟨?_, rfl⟩⟩
    have hs' := h.kernel_sub hs
    rw [Option.toList_none, List.nil_append, queued_cons hc] at hs'
    exact hs'

/-- Completing a write leaves the queue, the requests at the ring and the storage. -/
private theorem settle_frame (c : AsyncTun) (slot : Nat) (res : Int) :
    (c.settle slot res).queued = c.queued ∧ (c.settle slot res).kernel = c.kernel ∧
    (c.settle slot res).storage = c.storage := by
  unfold AsyncTun.settle
  split <;> exact ⟨rfl, rfl, rfl⟩

theorem Inv.service (h : Inv c o) (sqe : Bool) (ret : Int) :
    ∃ o', Inv (c.service sqe ret).1 o' ∧ Keeps c (c.service sqe ret).1 o' := by
  rcases h.reap_cases with ⟨-, he⟩ | ⟨slot, res, rfl, hk, he⟩ <;> unfold AsyncTun.service <;> rw [he]
  · exact h.publish sqe ret
  · obtain ⟨o', h', hkeep⟩ := (h.settle hk res).publish sqe ret
    obtain ⟨hq, hker, hst⟩ := settle_frame c slot res
    refine ⟨o', h', fun s hs => ?_⟩
    rw [← hq, ← hker] at hs
    obtain ⟨hmem, hs'⟩ := hkeep s hs
    exact ⟨hmem, hs'.trans (congrFun hst s)⟩

/-! ### Submission -/

private theorem freeSlot_eq_some {slot : Nat} (h : c.freeSlot = some slot) : slot < asyncFrames := by
  obtain ⟨n, -, rfl⟩ := List.mem_map.1 (List.mem_of_find?_eq_some h)
  exact Nat.mod_lt _ (by decide)

/-- A submission accepts nothing, or services the ring and queues the frame in a free slot. -/
private theorem submit_cases (c : AsyncTun) (fd : Int) (iov : List (List Byte)) (sqe : Bool) (ret : Int) :
    (c.submit fd iov sqe ret).1 = c ∨
    (∃ pressure, (c.submit fd iov sqe ret).1 = { (c.service sqe ret).1 with asyncPressure := pressure }) ∨
    ∃ slot pool token, (c.service sqe ret).1.freeSlot = some slot ∧
      (c.service sqe ret).1.pool.acquire slot = .ok (pool, token) ∧ iov.flatten.length ≠ 0 ∧
      iov.flatten.length ≤ recvBufSize ∧
      (c.submit fd iov sqe ret).1 = (c.service sqe ret).1.enqueue slot pool token fd iov.flatten := by
  unfold AsyncTun.submit
  dsimp only
  split
  · exact .inl rfl
  split
  · exact .inl rfl
  split
  · exact .inl rfl
  rename_i hle
  split
  · exact .inl rfl
  rename_i h0
  right
  split
  · rename_i c' he
    rw [he]
    exact .inl ⟨c'.asyncPressure, rfl⟩
  · rename_i c' he
    rw [he]
    split
    · exact .inl ⟨_, rfl⟩
    rename_i slot hslot
    split
    · exact .inl ⟨c'.asyncPressure, rfl⟩
    · rename_i pool token hacq
      exact .inr ⟨slot, pool, token, hslot, hacq, h0, Nat.not_lt.1 hle, rfl⟩

theorem Inv.submit (h : Inv c o) (fd : Int) (iov : List (List Byte)) (sqe : Bool) (ret : Int) :
    ∃ o', Inv (c.submit fd iov sqe ret).1 o' ∧
      ∀ s ∈ c.kernel ++ c.queued, (c.submit fd iov sqe ret).1.storage s = c.storage s := by
  obtain ⟨o', h', hkeep⟩ := h.service sqe ret
  rcases submit_cases c fd iov sqe ret with he | ⟨pressure, he⟩ | ⟨slot, pool, token, hslot, hacq, h0, hle, he⟩ <;>
    rw [he]
  · exact ⟨o, h, fun _ _ => rfl⟩
  · exact ⟨o', h'.congr rfl, fun s hs => (hkeep s hs).2⟩
  · have hlt := freeSlot_eq_some hslot
    refine ⟨o', h'.enqueue hlt hacq fd h0 hle, fun s hs => ?_⟩
    -- the slot is free, so it is none of those in use
    obtain ⟨hmem, hst⟩ := hkeep s hs
    have hne : s ≠ slot := by
      rintro rfl
      exact h'.idle hlt (acquire_eq_ok hacq).2.2.1 hmem
    simp only [AsyncTun.enqueue, Function.update_of_ne hne]
    exact hst

/-! ### The kernel -/

/-- The kernel's side, with the writer as it is. -/
theorem Inv.complete (h : Inv c o) (i : Nat) (res : Int) : Inv (c.complete i res) o := by
  unfold AsyncTun.complete
  split
  · exact h
  · rename_i slot hi
    refine { h with
      busy := fun s hs => { h.busy s hs with }
      kernel := ?_ }
    -- the request is the only one at the ring, and its completion is the only one in the queue
    right
    rcases h.kernel with hk | hk
    · rw [(List.append_eq_nil_iff.1 hk).1] at hi
      cases hi
    · obtain ⟨s, hs⟩ : ∃ s, c.kernel ++ c.cq.map Cqe.userData = [s] := by
        cases o with
        | none =>
          rw [(List.append_eq_nil_iff.1 hk).1] at hi
          cases hi
        | some s => exact ⟨s, hk⟩
      rcases List.append_eq_singleton_iff.1 hs with ⟨hnil, -⟩ | ⟨hker, hcq⟩
      · rw [hnil] at hi
        cases hi
      · rw [hker, List.getElem?_singleton] at hi
        obtain ⟨rfl, hi⟩ := Option.ite_none_right_eq_some.1 hi
        cases hi
        rw [← hk, hker, List.map_append, hcq]
        rfl

private theorem complete_frame (c : AsyncTun) (i : Nat) (res : Int) : (c.complete i res).queued = c.queued ∧
    (c.complete i res).storage = c.storage := by
  unfold AsyncTun.complete
  split <;> exact ⟨rfl, rfl⟩

/-! ### Runs -/

/-- What one event does to the books. -/
theorem Inv.step (h : Inv c o) (e : Event) : ∃ o', Inv (c.step e) o' ∧
    ∀ s ∈ c.kernel ++ c.queued, (c.step e).storage s = c.storage s := by
  cases e with
  | submit fd iov sqe ret => exact h.submit fd iov sqe ret
  | service sqe ret =>
    obtain ⟨o', h', hkeep⟩ := h.service sqe ret
    exact ⟨o', h', fun s hs => (hkeep s hs).2⟩
  | complete i res => exact ⟨o, h.complete i res, fun s _ => congrFun (complete_frame c i res).2 s⟩

theorem Inv.run (h : Inv c o) (es : List Event) : ∃ o', Inv (run AsyncTun.step c es) o' := by
  induction es generalizing c o with
  | nil => exact ⟨o, h⟩
  | cons e es ih =>
    obtain ⟨o', h', -⟩ := h.step e
    exact ih h'

/-- Before the first frame. -/
private theorem inv_init {worker : Nat} (h : asyncTunInit worker = .ok c) : Inv c none := by
  unfold asyncTunInit PacketFramePool.init at h
  rw [if_neg (by simp [asyncFrames])] at h
  split at h
  · cases h
  rename_i pool hpool
  split at hpool
  · cases hpool
  obtain rfl := Except.ok.inj hpool
  obtain rfl := Except.ok.inj h
  constructor
  case outstanding => rfl
  case tail => rfl
  case size => rfl
  case opened => rfl
  case area => exact fun _ _ => ⟨rfl, rfl, rfl⟩
  case state => exact fun _ _ => rfl
  case nodup => exact List.nodup_nil
  case busy => exact fun _ hs => absurd hs List.not_mem_nil
  case kernel => exact .inl rfl
  case accepted => rfl
  case published => exact ⟨[], rfl, rfl⟩
  case number => rfl
  case total => rfl
  case generations => exact fun _ hf => absurd hf List.not_mem_nil
  case distinct => exact List.nodup_nil

/-- The frames accepted are those completed, failed, queued and outstanding. -/
private theorem Inv.balance (h : Inv c o) :
    c.asyncAccepted = c.asyncCompleted + c.asyncErrors + c.count + if c.outstanding then 1 else 0 := by
  obtain ⟨done, hp, hc⟩ := h.published
  have hn : c.asyncCompleted + c.asyncErrors = done.length := by
    rw [← h.total, hc, List.length_map]
  have hq : c.queued.length = c.count := length_ring ..
  rw [h.number, h.accepted, hp, hn, h.outstanding]
  cases o with
  | none =>
    simp [hq]
  | some s =>
    simp [hq]
    omega

/-- One write at most is at the ring. -/
theorem Inv.one (h : Inv c o) : c.kernel.length + c.cq.length ≤ 1 := by
  have hlen : (c.kernel ++ c.cq.map Cqe.userData).length ≤ 1 := by
    rcases h.kernel with hk | hk <;> rw [hk]
    · exact Nat.zero_le _
    · cases o <;> simp
  rwa [List.length_append, List.length_map] at hlen

/-! ### Shutdown -/

private theorem reap_storage (cq : List Cqe) (c : AsyncTun) : (reap cq c).1.storage = c.storage := by
  induction cq generalizing c with
  | nil => rfl
  | cons cqe cq ih =>
    rw [reap]
    split
    · rfl
    · rw [ih]
      exact (settle_frame c _ _).2.2

private theorem service_storage (c : AsyncTun) (sqe : Bool) (ret : Int) :
    (c.service sqe ret).1.storage = c.storage := by
  have hr := reap_storage c.cq c
  unfold AsyncTun.service
  split
  · rename_i he
    rw [he] at hr
    exact hr
  · rename_i c' he
    rw [he] at hr
    rw [← hr]
    rcases publish_cases c' sqe ret with ⟨failed, he⟩ | ⟨-, -, failed, he⟩
    · rw [he]
    · rw [he]
      rfl

private theorem foldl_complete (l : List (Nat × Int)) (h : Inv c o) :
    Inv (l.foldl (fun c e => c.complete e.1 e.2) c) o ∧
      (l.foldl (fun c e => c.complete e.1 e.2) c).storage = c.storage := by
  induction l generalizing c with
  | nil => exact ⟨h, rfl⟩
  | cons e l ih =>
    obtain ⟨h', hs⟩ := ih (h.complete e.1 e.2)
    exact ⟨h', hs.trans (complete_frame c e.1 e.2).2⟩

/-- The loop of the shutdown keeps the books, and touches no buffer. -/
theorem Inv.drain (h : Inv c o) (rounds : List Round) :
    (∃ o', Inv (drain rounds c) o') ∧ (AsyncTun.drain rounds c).storage = c.storage := by
  induction rounds generalizing c o with
  | nil => exact ⟨⟨o, h⟩, rfl⟩
  | cons r rounds ih =>
    obtain ⟨hc, hs⟩ := foldl_complete r.completions h
    rw [AsyncTun.drain]
    split
    · exact ⟨⟨o, h⟩, rfl⟩
    generalize r.completions.foldl (fun c e => c.complete e.1 e.2) c = c₁ at hc hs
    obtain ⟨o', h', -⟩ := hc.service r.sqe r.ret
    have hs' := service_storage c₁ r.sqe r.ret
    split
    · rename_i c' he
      rw [he] at h' hs'
      exact ⟨⟨o', h'⟩, hs'.trans hs⟩
    · rename_i c' he
      rw [he] at h' hs'
      obtain ⟨h'', hs''⟩ := ih h'
      exact ⟨h'', hs''.trans (hs'.trans hs)⟩

/-- The pass over the slots counts each abandoned frame once. -/
private theorem foldl_abandon {l : List Nat} (hn : l.Nodup) (c : AsyncTun) :
    ∃ failureCounted, l.foldl abandon c = { c with
      failureCounted := failureCounted
      asyncErrors := c.asyncErrors + (l.filter c.abandoned).length
      counted := c.counted ++ (l.filter c.abandoned).map c.tokens } := by
  induction l generalizing c with
  | nil => exact ⟨c.failureCounted, by simp⟩
  | cons s l ih =>
    obtain ⟨hs, hl⟩ := List.nodup_cons.1 hn
    obtain ⟨failureCounted, he⟩ := ih hl (c.abandon s)
    refine ⟨failureCounted, ?_⟩
    -- the slots that follow are other ones
    have hrest : l.filter (c.abandon s).abandoned = l.filter c.abandoned := by
      refine List.filter_congr fun t ht => ?_
      have hne : t ≠ s := fun he => hs (he ▸ ht)
      unfold abandon
      split
      · simp only [abandoned, Function.update_of_ne hne]
      · rfl
    rw [List.foldl_cons, he, hrest, List.filter_cons]
    unfold abandon
    split
    · simp only [List.length_cons, List.map_cons, List.append_assoc, List.cons_append, List.nil_append, Nat.add_assoc,
        Nat.add_comm 1]
    · rfl

/-- What is abandoned is what is outstanding or queued. -/
private theorem Inv.abandoned_perm (h : Inv c o) :
    ((List.range asyncFrames).filter c.abandoned).Perm (o.toList ++ c.queued) := by
  refine (List.perm_ext_iff_of_nodup (List.nodup_range.filter _) h.nodup).2 fun s => ?_
  rw [List.mem_filter, List.mem_range]
  constructor
  · rintro ⟨hlt, hs⟩
    have hst := h.state s hlt
    rw [List.mem_append, Option.mem_toList]
    by_contra hno
    rw [not_or] at hno
    rw [if_neg hno.1, if_neg hno.2] at hst
    simp [abandoned, hst] at hs
  · intro hs
    have hb := h.busy s hs
    have hst := h.state s hb.lt
    refine ⟨hb.lt, ?_⟩
    rw [List.mem_append, Option.mem_toList] at hs
    by_cases ho : o = some s
    · rw [if_pos ho] at hst
      simp [abandoned, hst, hb.fresh]
    · rw [if_neg ho, if_pos (hs.resolve_left ho)] at hst
      simp [abandoned, hst, hb.fresh]

/-- The frames accepted, in terms of the slots. -/
theorem Inv.tokens (h : Inv c o) :
    c.accepted.map AsyncFrame.token = c.counted ++ (o.toList ++ c.queued).map c.tokens := by
  obtain ⟨done, hp, hc⟩ := h.published
  rw [h.accepted, hp, hc, List.map_append, List.map_append, List.map_append, List.map_map, List.map_map,
    List.append_assoc]
  rfl

/-- After the shutdown every accepted frame is counted, once. -/
theorem Inv.finish (h : Inv c o) (rounds : List Round) :
    let f := (c.finish rounds).1
    f.counted.Perm (f.accepted.map AsyncFrame.token) ∧ f.counted.length = f.asyncCompleted + f.asyncErrors ∧
    f.asyncAccepted = f.accepted.length ∧ (f.accepted.map AsyncFrame.token).Nodup ∧ f.published <+: f.accepted ∧
    f.kernel.length + f.cq.length ≤ 1 ∧ f.storage = c.storage := by
  have hstop : Inv { c with pool := c.pool.stop } o := h.congr rfl
  obtain ⟨⟨o', h'⟩, hs⟩ := hstop.drain rounds
  unfold AsyncTun.finish
  generalize AsyncTun.drain rounds { c with pool := c.pool.stop } = c' at h' hs
  dsimp only
  have horder : c'.published <+: c'.accepted := ⟨_, h'.accepted.symm⟩
  split
  · rename_i hidle
    refine ⟨?_, h'.total, h'.number, h'.distinct, horder, h'.one, hs⟩
    have ho : o' = none := by
      have hout := hidle.2
      rw [h'.outstanding] at hout
      simpa using hout
    have hq : c'.queued = [] := by
      rw [← List.length_eq_zero_iff, AsyncTun.queued, length_ring]
      exact hidle.1
    rw [h'.tokens, ho, hq]
    simp
  · have hf : Inv { c' with failed := true } o' := h'.congr rfl
    obtain ⟨failureCounted, he⟩ := foldl_abandon (l := List.range asyncFrames) List.nodup_range
      { c' with failed := true }
    rw [he]
    have hperm := hf.abandoned_perm
    refine ⟨?_, ?_, h'.number, h'.distinct, horder, h'.one, hs⟩
    · have htok := hf.tokens
      dsimp only at htok ⊢
      rw [htok]
      exact (hperm.map _).append_left _
    · have ht := h'.total
      simp only [List.length_append, List.length_map]
      omega

/-- The law of the writer of one worker, in every state of every run and after every shutdown from there: writes are
published in the order of acceptance, one at a time; the buffer of a frame the ring holds or that waits for it is left
alone; the frames accepted are those completed, failed, queued and outstanding; and after the shutdown they are those
completed and failed, each counted once. -/
theorem async_tun_run {worker : Nat} {c₀ : AsyncTun} (h : asyncTunInit worker = .ok c₀) (es : List Event) :
    let c := run AsyncTun.step c₀ es
    c.published <+: c.accepted ∧
    c.kernel.length + c.cq.length ≤ 1 ∧
    (∀ e, ∀ s ∈ c.kernel ++ c.queued, (c.step e).storage s = c.storage s) ∧
    c.asyncAccepted = c.asyncCompleted + c.asyncErrors + c.count + (if c.outstanding then 1 else 0) ∧
    (c.asyncAccepted = c.accepted.length ∧ c.counted.length = c.asyncCompleted + c.asyncErrors ∧ c.counted.Nodup) ∧
    ∀ rounds,
      let f := (c.finish rounds).1
      f.published <+: f.accepted ∧
      f.kernel.length + f.cq.length ≤ 1 ∧
      f.storage = c.storage ∧
      f.asyncAccepted = f.asyncCompleted + f.asyncErrors ∧
      (f.accepted.map AsyncFrame.token).Nodup ∧
      f.counted.Perm (f.accepted.map AsyncFrame.token) ∧
      f.counted.length = f.asyncCompleted + f.asyncErrors := by
  intro c
  obtain ⟨o, hc⟩ : ∃ o, Inv c o := (inv_init h).run es
  refine ⟨⟨_, hc.accepted.symm⟩, hc.one, ?_, hc.balance, ⟨hc.number, hc.total, ?_⟩, fun rounds => ?_⟩
  · intro e s hs
    obtain ⟨-, -, hst⟩ := hc.step e
    exact hst s hs
  · have hd := hc.distinct
    rw [hc.tokens, List.nodup_append] at hd
    exact hd.1
  · obtain ⟨hperm, htotal, hnumber, hdistinct, horder, hone, hst⟩ := hc.finish rounds
    refine ⟨horder, hone, hst, ?_, hdistinct, hperm, htotal⟩
    rw [hnumber, ← htotal, hperm.length_eq, List.length_map]

/-- The writer of the first worker, after two frames of which the first is written short and the second is abandoned. -/
theorem async_tun_run_sample : ∃ c₀, asyncTunInit 0 = .ok c₀ ∧
    (run AsyncTun.step c₀ [.submit 3 [[1, 2], [3]] true 1, .submit 3 [[4]] true 1, .complete 0 2]).published <+:
      (run AsyncTun.step c₀ [.submit 3 [[1, 2], [3]] true 1, .submit 3 [[4]] true 1, .complete 0 2]).accepted := by
  obtain ⟨pool, hpool⟩ := PacketFramePool.exists_init (f := fun _ => ⟨true, recvBufSize, 0, 0, 0, .free⟩)
    (n := asyncFrames) (k := 1) (by decide) (by decide) fun _ _ => ⟨rfl, by decide⟩
  obtain ⟨c₀, h⟩ : ∃ c₀, asyncTunInit 0 = .ok c₀ := by
    unfold asyncTunInit
    rw [hpool]
    exact ⟨_, rfl⟩
  exact ⟨c₀, h, (async_tun_run h _).1⟩

end AsyncTun

end Tayga
