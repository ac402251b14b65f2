import Tayga.Places

/-!
# The dispatcher keeps its slots

The invariant of the dispatcher and what every operation does to the places: a submission drops the packet, parks it
or queues it (`submit_outcome`), a take hands the head of a ring to a worker, a release and an expiry put slots back on
the free stack.
-/

namespace Tayga

open SlotPool

/-- The bucket of a flow. -/
def FlowPacket.bucket (p : FlowPacket) : Nat := (p.flowHash &&& 65535).toNat

/-- The invariant of the dispatcher whose slots are in the places `c`. -/
structure Dispatch.Inv (d : Dispatch) (c : Place → List Nat) : Prop where
  holds : d.Holds c
  whole : Whole c
  workers_pos : 0 < d.workers
  workers_le : d.workers ≤ expWorkers
  idle : ∀ w, d.workers ≤ w → c (.queue w) = []
  flows : ∀ b, d.flowQueues b ≤ d.workers
  routes : ∀ i, (d.fragments i).queue < d.workers
  resolved : ∀ i, (d.fragments i).resolved ≤ 2
  parked : ∀ i, (c (.held i)).length ≤ 8
  unused : ∀ i, (d.fragments i).used = false → (d.fragments i).resolved = 0

/-- What a fragment context keeps once it is in use. -/
structure FragmentEntry.Kept (e e' : FragmentEntry) : Prop where
  used : e.used → e'.used
  key : e.used → e'.key = e.key
  deadline : e.used → e'.deadline = e.deadline
  named : e.resolved ≠ 0 → e'.resolved ≠ 0 ∧ e'.queue = e.queue
  closed : e.resolved = 2 → e'.resolved = 2

theorem FragmentEntry.Kept.refl (e : FragmentEntry) : e.Kept e :=
  ⟨id, fun _ => rfl, fun _ => rfl, fun h => ⟨h, rfl⟩, id⟩

theorem FragmentEntry.Kept.trans {e e' e'' : FragmentEntry} (h : e.Kept e') (h' : e'.Kept e'') : e.Kept e'' where
  used hu := h'.used (h.used hu)
  key hu := (h'.key (h.used hu)).trans (h.key hu)
  deadline hu := (h'.deadline (h.used hu)).trans (h.deadline hu)
  named hr := ⟨(h'.named (h.named hr).1).1, (h'.named (h.named hr).1).2.trans (h.named hr).2⟩
  closed hc := h'.closed (h.closed hc)

/-- The fields of a context that do not describe its list. -/
structure FragmentEntry.Same (e e' : FragmentEntry) : Prop where
  key : e'.key = e.key
  used : e'.used = e.used
  resolved : e'.resolved = e.resolved
  queue : e'.queue = e.queue
  deadline : e'.deadline = e.deadline

theorem FragmentEntry.Same.kept {e e' : FragmentEntry} (h : e.Same e') : e.Kept e' where
  used hu := h.used.trans hu
  key _ := h.key
  deadline _ := h.deadline
  named hr := ⟨h.resolved.symm ▸ hr, h.queue⟩
  closed hc := h.resolved.trans hc

/-- A flow bucket keeps its queue. -/
def Dispatch.FlowsKept (d d' : Dispatch) : Prop := ∀ b, d.flowQueues b ≠ 0 → d'.flowQueues b = d.flowQueues b

/-- The queue of a packet that goes by its flow. -/
def Dispatch.Home (d : Dispatch) (p : FlowPacket) (q : Nat) : Prop :=
  if p.transport then d.flowQueues p.bucket = q + 1 else q = 0

/-- Frames that have storage make a pool. -/
theorem PacketFramePool.exists_init {f : Nat → PacketFrame} {n k : Nat} (hn : n ≠ 0) (hk : k ≠ 0)
    (hf : ∀ i < n, (f i).storage ∧ (f i).capacity ≠ 0) : ∃ pool, PacketFramePool.init f n k = .ok pool := by
  unfold PacketFramePool.init
  rw [if_neg (by simp [hn, hk]), if_neg ?_]
  · exact ⟨_, rfl⟩
  · rw [List.any_eq_true]
    rintro ⟨i, hi, hb⟩
    obtain ⟨hs, hc⟩ := hf i (List.mem_range.mp hi)
    simp [hs, hc] at hb

namespace Dispatch

variable {d : Dispatch} {c : Place → List Nat}

/-! ### The pieces of a submission -/

/-- Only the flow queues change. -/
theorem flowQueue_frame (d : Dispatch) (p : FlowPacket) : ∃ flowQueues nextQueue, (d.flowQueue p).1 = { d with
    flowQueues := flowQueues
    nextQueue := nextQueue } := by
  unfold flowQueue
  by_cases ht : p.transport
  · by_cases hb : d.flowQueues (p.flowHash &&& 65535).toNat = 0
    · simp only [if_pos ht, if_pos hb]
      exact ⟨_, _, rfl⟩
    · simp only [if_pos ht, if_neg hb]
      exact ⟨_, _, rfl⟩
  · simp only [if_neg ht]
    exact ⟨_, _, rfl⟩

/-- The queue of the flow is known or given out now. -/
private theorem flowQueue_spec (h : Inv d c) (p : FlowPacket) :
    Inv (d.flowQueue p).1 c ∧ (d.flowQueue p).2 < d.workers ∧ d.FlowsKept (d.flowQueue p).1 ∧
      (d.flowQueue p).1.Home p (d.flowQueue p).2 := by
  unfold flowQueue Home
  by_cases ht : p.transport
  · simp only [if_pos ht]
    by_cases hb : d.flowQueues (p.flowHash &&& 65535).toNat = 0
    · simp only [if_pos hb]
      have hlt : d.nextQueue.toNat % d.workers < d.workers := Nat.mod_lt _ h.workers_pos
      refine ⟨{ h with holds := { h.holds with }, flows := fun b => ?_ }, hlt, fun b hb' => ?_, ?_⟩
      · by_cases hbb : b = (p.flowHash &&& 65535).toNat
        · subst hbb
          simp only [Function.update_self]
          omega
        · simp only [Function.update_of_ne hbb]
          exact h.flows b
      · refine Function.update_of_ne ?_ _ _
        rintro rfl
        exact hb' hb
      · simp only [FlowPacket.bucket, Function.update_self]
        omega
    · simp only [if_neg hb]
      have := h.flows (p.flowHash &&& 65535).toNat
      refine ⟨h, by omega, fun _ _ => rfl, ?_⟩
      simp only [FlowPacket.bucket]
      omega
  · simp only [if_neg ht]
    exact ⟨h, h.workers_pos, fun _ _ => rfl, trivial⟩

end Dispatch

/-- What a context on its first use becomes. -/
private theorem FragmentEntry.setup_spec (e : FragmentEntry) (key : List Byte) (opened : Nat)
    (hu : e.used = false → e.resolved = 0) :
    (e.setup key opened).used ∧ e.Kept (e.setup key opened) ∧ (e.setup key opened).resolved = e.resolved ∧
      (e.setup key opened).queue = e.queue ∧ (e.setup key opened).count = e.count ∧
      ∀ next l, e.Parks next l → (e.setup key opened).Parks next l := by
  unfold setup
  by_cases h : e.used
  · simp only [if_pos h]
    exact ⟨h, .refl e, trivial, trivial, trivial, fun _ _ hp => hp⟩
  · have h' : e.used = false := by simpa using h
    simp only [h', Bool.false_eq_true, if_false]
    refine ⟨trivial, ⟨by simp [h'], by simp [h'], by simp [h'], fun hr => absurd (hu h') hr, fun hr => ?_⟩, trivial,
        trivial,
      trivial, fun next l hp => ?_⟩
    · rw [hu h'] at hr
      cases hr
    · obtain rfl := hp.unused h'
      exact ⟨fun _ => .nil, fun _ => rfl, hp.count, fun hf => by simp at hf⟩

/-- The cases of the gate: the fragment is refused, closes the context, names the queue, follows it, or waits. -/
private theorem FragmentEntry.gate_cases (e : FragmentEntry) (p : FlowPacket) (q now : Nat) :
    (e.gate p q now = (e, none)) ∨
    (p.first ∧ e.key = p.fragmentKey ∧ e.resolved ≠ 0 ∧ e.gate p q now = ({ e with resolved := 2 }, none)) ∨
    (e.key = p.fragmentKey ∧ e.resolved ≠ 2 ∧ now < e.deadline ∧
      ((p.first ∧ (e.resolved = 0 ∨ e.queue = q) ∧ e.gate p q now = ({ e with
          resolved := 1
          queue := q }, some q)) ∨
       (p.first = false ∧ e.resolved ≠ 0 ∧ e.gate p q now = (e, some e.queue)) ∨
       (p.first = false ∧ e.resolved = 0 ∧ e.count ≠ 8 ∧ e.gate p q now = (e, some q)))) := by
  unfold gate
  split
  · exact .inl rfl
  · rename_i hg
    simp only [not_or, not_le, not_not, not_and] at hg
    obtain ⟨hk, hr, hd, hc⟩ := hg
    by_cases hf : p.first
    · simp only [if_pos hf]
      by_cases hq : e.resolved ≠ 0 ∧ e.queue ≠ q
      · simp only [if_pos hq]
        exact .inr (.inl ⟨hf, hk, hq.1, trivial⟩)
      · simp only [if_neg hq]
        refine .inr (.inr ⟨hk, hr, hd, .inl ⟨hf, ?_, trivial⟩⟩)
        by_cases h0 : e.resolved = 0
        · exact .inl h0
        · exact .inr (by_contra fun hne => hq ⟨h0, hne⟩)
    · have hf' : p.first = false := by simpa using hf
      simp only [if_neg hf]
      by_cases h0 : e.resolved = 0
      · refine .inr (.inr ⟨hk, hr, hd, .inr (.inr ⟨hf', h0, hc h0 hf, ?_⟩)⟩)
        simp [h0]
      · refine .inr (.inr ⟨hk, hr, hd, .inr (.inl ⟨hf', h0, ?_⟩)⟩)
        simp [h0]

namespace Dispatch

variable {d : Dispatch} {c : Place → List Nat}

/-- A slot for a packet is the top of the free stack. -/
private theorem takeSlot_spec (h : Inv d c) {pending : Bool} {slot : Nat} {pool : PacketFramePool}
    {token : PacketFrameToken} (ht : d.takeSlot pending = some (slot, pool, token)) :
    (∃ free, c .free = free ++ [slot]) ∧ (d.takeSlot false).isSome := by
  unfold takeSlot at ht ⊢
  split at ht
  · cases ht
  · rename_i hs
    simp only [not_or, not_and, not_le, Bool.not_eq_true] at hs
    split at ht
    · cases ht
    · rename_i hacq
      simp only [Option.some.injEq, Prod.mk.injEq] at ht
      obtain ⟨rfl, -, -⟩ := ht
      have hc : d.freeCount = d.freeCount - 1 + 1 := by omega
      refine ⟨⟨stack d.freeSlots (d.freeCount - 1), ?_⟩, ?_⟩
      · rw [← h.holds.free]
        conv_lhs => rw [hc]
        exact stack_succ _ _
      · simp [hs.1, hs.2.1]

/-- The top of the free stack goes to the list of a context. -/
def parkAt (c : Place → List Nat) (free : List Nat) (i x : Nat) : Place → List Nat :=
  Function.update (Function.update c .free free) (.held i) (c (.held i) ++ [x])

/-- The top of the free stack goes to a ring. -/
def queueAt (c : Place → List Nat) (free : List Nat) (q x : Nat) : Place → List Nat :=
  Function.update (Function.update c .free free) (.queue q) (c (.queue q) ++ [x])

/-- The list of a context goes to a ring. -/
def flushAt (c : Place → List Nat) (q i : Nat) : Place → List Nat :=
  Function.update (Function.update c (.queue q) (c (.queue q) ++ c (.held i))) (.held i) []

section Places

variable {free : List Nat} {q i x : Nat}

private theorem parkAt_whole (h : Whole c) (hf : c .free = free ++ [x]) (hi : i < dispatchFragments) : Whole
    (parkAt c free i x) :=
  h.move free_mem_places (held_mem_places.mpr hi) (by simp) (m := [x]) (by simp [parkAt, hf]) (by simp [parkAt]) fun
      r hr hr' => by
    simp [parkAt, Function.update_of_ne hr, Function.update_of_ne hr']

private theorem queueAt_whole (h : Whole c) (hf : c .free = free ++ [x]) (hq : q < expWorkers) :
    Whole (queueAt c free q x) :=
  h.move free_mem_places (queue_mem_places.mpr hq) (by simp) (m := [x]) (by simp [queueAt, hf]) (by simp [queueAt])
      fun r hr hr' => by
    simp [queueAt, Function.update_of_ne hr, Function.update_of_ne hr']

private theorem flushAt_whole (h : Whole c) (hi : i < dispatchFragments) (hq : q < expWorkers) :
    Whole (flushAt c q i) :=
  h.move (held_mem_places.mpr hi) (queue_mem_places.mpr hq) (by simp) (m := c (.held i)) (by simp [flushAt])
      (by simp [flushAt]) fun r hr hr' => by
    simp [flushAt, Function.update_of_ne hr, Function.update_of_ne hr']

end Places

theorem flush_frame (d : Dispatch) (i q : Nat) :
    ∃ queues tail count, d.flush i q = { d with
      queues := queues
      tail := tail
      count := count
      fragments := Function.update d.fragments i { d.fragments i with
        first := none
        last := none
        count := 0 } } := by
  obtain ⟨queues, tail, count, h⟩ := d.queueHeld_frame q dispatchFrames (d.fragments i).first
  refine ⟨queues, tail, count, ?_⟩
  unfold flush
  rw [h]

protected theorem Holds.flush (h : d.Holds c) {q i : Nat} (hu : (d.fragments i).used)
    (hq : (c (.queue q)).length + (c (.held i)).length ≤ dispatchFrames) : (d.flush i q).Holds (flushAt c q i) := by
  have hp := h.held i
  have hlen : (c (.held i)).length ≤ dispatchFrames := by omega
  have hk := h.queueHeld hlen (hp.linked hu) hq
  obtain ⟨queues, tail, count, hfr⟩ := d.queueHeld_frame q dispatchFrames (d.fragments i).first
  have := hk.setFragment (i := i) (l := []) (n := d.next) (e := { d.fragments i with
    first := none
    last := none
    count := 0 }) ⟨fun _ => .nil, fun _ => rfl, rfl, fun _ => rfl⟩ fun j _ a _ => by rw [hfr]
  unfold Dispatch.flush
  rw [hfr] at this ⊢
  exact this

/-- What changes when a packet gets a slot. -/
structure Admitted (d d' : Dispatch) : Prop where
  workers : d'.workers = d.workers
  flows : d'.flowQueues = d.flowQueues
  drops : d'.drops = d.drops
  freeCount : d'.freeCount + 1 = d.freeCount
  fragments : ∀ j, (d.fragments j).Same (d'.fragments j)

private theorem Inv.of_admitted (h : Inv d c) {d' : Dispatch} {c' : Place → List Nat} (ha : Admitted d d')
    (hh : d'.Holds c')
    (hw : Whole c') (hidle : ∀ w, d.workers ≤ w → c' (.queue w) = []) (hp : ∀ i, (c' (.held i)).length ≤ 8) :
    Inv d' c' where
  holds := hh
  whole := hw
  workers_pos := ha.workers ▸ h.workers_pos
  workers_le := ha.workers ▸ h.workers_le
  idle := ha.workers ▸ hidle
  flows := by
    rw [ha.workers, ha.flows]
    exact h.flows
  routes i := by
    rw [ha.workers, (ha.fragments i).queue]
    exact h.routes i
  resolved i := (ha.fragments i).resolved ▸ h.resolved i
  parked := hp
  unused i hi := by
    rw [(ha.fragments i).resolved]
    exact h.unused i ((ha.fragments i).used ▸ hi)

/-- A packet that gets a slot is parked when it has to wait for its first fragment, else queued with the packets
that waited for it. -/
private theorem admit_spec (h : Inv d c) (fragment : Option Nat) {q : Nat} (hq : q < d.workers)
    (hi : ∀ i ∈ fragment, i < dispatchFragments ∧ (d.fragments i).used ∧
      ((d.fragments i).resolved = 0 → (c (.held i)).length < 8)) (vnetHdrSz : Nat) (buffer : List Byte) :
    d.admitPacket vnetHdrSz buffer fragment q = d.drop buffer.length ∨
    ∃ free x, c .free = free ++ [x] ∧ (d.takeSlot false).isSome ∧ Admitted d
        (d.admitPacket vnetHdrSz buffer fragment q) ∧
      ∃ c', Inv (d.admitPacket vnetHdrSz buffer fragment q) c' ∧
        match fragment with
        | none => c' = queueAt c free q x
        | some i => if (d.fragments i).resolved = 0 then c' = parkAt c free i x
            else c' = flushAt (queueAt c free q x) q i := by
  unfold admitPacket
  rcases ht : d.takeSlot (d.waits fragment) with _ | ⟨x, pool, token⟩
  · exact .inl rfl
  · obtain ⟨⟨free, hf⟩, hsome⟩ := takeSlot_spec h ht
    have hpos : d.freeCount = free.length + 1 := by
      rw [h.holds.freeCount_eq, hf, List.length_append, List.length_singleton]
    have hq8 : q < expWorkers := hq.trans_le h.workers_le
    have hxf : x ∈ c .free := by rw [hf]; simp
    have hstore := h.holds.store h.whole hf vnetHdrSz pool token buffer
    have hqueue : ((d.store vnetHdrSz x pool token buffer).queueLocked x q).Holds (queueAt c free q x) := by
      have hlen : (c (.queue q)).length < dispatchFrames := h.whole.length_lt (by simp) hxf
      have := hstore.queueLocked (q := q) (by rwa [Function.update_of_ne (by simp)]) x
      rwa [Function.update_of_ne (by simp)] at this
    have hqw := queueAt_whole h.whole hf hq8
    refine .inr ⟨free, x, hf, hsome, ?_⟩
    have hne : ∀ w, d.workers ≤ w → w ≠ q := fun w hw => by omega
    rcases fragment with _ | i
    · have ha : Admitted d ((d.store vnetHdrSz x pool token buffer).settle x q none) :=
        ⟨rfl, rfl, rfl, Nat.sub_add_cancel (by omega), fun j => ⟨rfl, rfl, rfl, rfl, rfl⟩⟩
      refine ⟨ha, _, h.of_admitted ha hqueue hqw (fun w hw => ?_) fun j => ?_, rfl⟩
      · simpa [queueAt, hne w hw] using h.idle w hw
      · simpa [queueAt] using h.parked j
    · obtain ⟨hi, hu, hlt⟩ := hi i rfl
      by_cases hr : (d.fragments i).resolved = 0
      · have hs : (d.store vnetHdrSz x pool token buffer).settle x q (some i) =
            (d.store vnetHdrSz x pool token buffer).hold i x := if_pos hr
        simp only [hs, if_pos hr]
        have ha : Admitted d ((d.store vnetHdrSz x pool token buffer).hold i x) := by
          refine ⟨rfl, rfl, rfl, Nat.sub_add_cancel (by omega), fun j => ?_⟩
          by_cases hji : j = i
          · subst hji
            simp only [hold, Function.update_self]
            exact ⟨rfl, rfl, rfl, rfl, rfl⟩
          · simp only [hold, Function.update_of_ne hji]
            exact ⟨rfl, rfl, rfl, rfl, rfl⟩
        have hpark : ((d.store vnetHdrSz x pool token buffer).hold i x).Holds (parkAt c free i x) := by
          have hheld : ∀ j, Function.update c .free free (.held j) = c (.held j) := fun j => by simp
          have := hstore.hold (i := i) (x := x) hu (by rw [hheld]; exact h.whole.nodup _)
            (fun j a ha hb => by
              rw [hheld] at ha hb
              exact Place.held.inj (h.whole.eq_of_mem ha hb))
            (fun hx => by
              rw [hheld] at hx
              exact Place.noConfusion (h.whole.eq_of_mem hx hxf))
            (Function.update_self _ _ _)
          rwa [hheld] at this
        refine ⟨ha, _, h.of_admitted ha hpark (parkAt_whole h.whole hf hi) (fun w hw => ?_) fun j => ?_, rfl⟩
        · simpa [parkAt] using h.idle w hw
        · by_cases hji : j = i
          · subst hji
            simp only [parkAt, Function.update_self, List.length_append, List.length_singleton]
            exact hlt hr
          · simpa [parkAt, hji] using h.parked j
      · have hs : (d.store vnetHdrSz x pool token buffer).settle x q (some i) =
            ((d.store vnetHdrSz x pool token buffer).queueLocked x q).flush i q := if_neg hr
        simp only [hs, if_neg hr]
        obtain ⟨queues, tail, count, hfr⟩ := ((d.store vnetHdrSz x pool token buffer).queueLocked x q).flush_frame i q
        have ha : Admitted d (((d.store vnetHdrSz x pool token buffer).queueLocked x q).flush i q) := by
          rw [hfr]
          refine ⟨rfl, rfl, rfl, Nat.sub_add_cancel (by omega), fun j => ?_⟩
          by_cases hji : j = i
          · subst hji
            simp only [Function.update_self]
            exact ⟨rfl, rfl, rfl, rfl, rfl⟩
          · simp only [Function.update_of_ne hji]
            exact ⟨rfl, rfl, rfl, rfl, rfl⟩
        have hlen := hqw.add_length_le (p := .queue q) (q := .held i) (by simp)
        have hflush := hqueue.flush (q := q) (i := i) hu hlen
        refine ⟨ha, _, h.of_admitted ha hflush (flushAt_whole hqw hi hq8) (fun w hw => ?_) fun j => ?_, rfl⟩
        · simpa [flushAt, queueAt, hne w hw] using h.idle w hw
        · by_cases hji : j = i
          · subst hji
            simp [flushAt]
          · simpa [flushAt, queueAt, hji] using h.parked j

theorem Inv.setFragment (h : Inv d c) {i : Nat} {e : FragmentEntry} (hp : e.Parks d.next (c (.held i)))
    (hq : e.queue < d.workers) (hr : e.resolved ≤ 2) (hu : e.used) :
    Inv { d with fragments := Function.update d.fragments i e } c where
  holds := by
    have := h.holds.setFragment (i := i) (n := d.next) hp fun _ _ _ _ => rfl
    rwa [Function.update_eq_self] at this
  whole := h.whole
  workers_pos := h.workers_pos
  workers_le := h.workers_le
  idle := h.idle
  flows := h.flows
  routes j := by
    by_cases hji : j = i
    · subst hji
      simpa using hq
    · simpa [hji] using h.routes j
  resolved j := by
    by_cases hji : j = i
    · subst hji
      simpa using hr
    · simpa [hji] using h.resolved j
  parked := h.parked
  unused j hj := by
    by_cases hji : j = i
    · subst hji
      simp [hu] at hj
    · simp only [Function.update_of_ne hji] at hj ⊢
      exact h.unused j hj

protected theorem Inv.drop (h : Inv d c) (bytes : Nat) : Inv (d.drop bytes) c :=
  { h with holds := h.holds.drop bytes }

/-- The context of a fragment after the gate, and the queue of a fragment it takes. -/
private theorem gate_spec (h : Inv d c) (p : FlowPacket) {q : Nat} (hq : q < d.workers) (opened now i : Nat)
    {e : FragmentEntry} {r : Option Nat} (hg : ((d.fragments i).setup p.fragmentKey opened).gate p q now = (e, r)) :
    Inv { d with fragments := Function.update d.fragments i e } c ∧ e.used ∧ (d.fragments i).Kept e ∧
      (e.resolved = 1 → (d.fragments i).resolved = 1 ∨ p.first ∧ e.key = p.fragmentKey ∧ e.queue = q) ∧
      ∀ q' ∈ r, q' < d.workers ∧ e.key = p.fragmentKey ∧ now < e.deadline ∧
        (e.resolved = 0 ∧ p.first = false ∧ (c (.held i)).length < 8 ∨
          e.resolved = 1 ∧ e.queue = q' ∧ (d.fragments i).resolved ≠ 2 ∧ (p.first → q' = q) ∧
            (p.first = false → (d.fragments i).resolved = 1)) := by
  obtain ⟨hu, hk, hr, hqe, hc, hp⟩ := (d.fragments i).setup_spec p.fragmentKey opened (h.unused i)
  have hp := hp _ _ (h.holds.held i)
  have hr2 := h.resolved i
  have hlen := h.parked i
  have hcount := (h.holds.held i).count
  generalize (d.fragments i).setup p.fragmentKey opened = e0 at *
  rcases e0.gate_cases p q now with hg' | ⟨h1, hkey, hr0, hg'⟩ | ⟨hkey, hr0, hd, ⟨h1, hor, hg'⟩ | ⟨h1, h0, hg'⟩ |
      ⟨h1, h0, h8, hg'⟩⟩
  all_goals
    obtain ⟨rfl, rfl⟩ := Prod.mk.inj (hg.symm.trans hg')
  · exact ⟨h.setFragment hp (hqe ▸ h.routes i) (hr ▸ hr2) hu, hu, hk, fun h1 => .inl (hr ▸ h1), by simp⟩
  · refine ⟨h.setFragment { hp with } (hqe ▸ h.routes i) (by simp) hu, hu,
      hk.trans ⟨id, fun _ => rfl, fun _ => rfl, fun _ => ⟨by simp, rfl⟩, fun _ => rfl⟩, by simp, by simp⟩
  · refine ⟨h.setFragment { hp with } hq (by simp) hu, hu, hk.trans ⟨id, fun _ => rfl, fun _ => rfl, fun hn =>
        ⟨by simp, ?_⟩,
      fun h2 => absurd h2 hr0⟩, fun _ => .inr ⟨h1, hkey, rfl⟩, ?_⟩
    · rcases hor with h0 | he
      · exact absurd h0 hn
      · exact he.symm
    · rintro q' hq'
      obtain rfl := Option.some.inj hq'
      exact ⟨hq, hkey, hd, .inr ⟨rfl, rfl, hr ▸ hr0, fun _ => rfl, by simp [h1]⟩⟩
  · refine ⟨h.setFragment hp (hqe ▸ h.routes i) (hr ▸ hr2) hu, hu, hk, fun h1 => .inl (hr ▸ h1), ?_⟩
    rintro q' hq'
    obtain rfl := Option.some.inj hq'
    have he1 : e.resolved = 1 := by omega
    exact ⟨hqe ▸ h.routes i, hkey, hd, .inr ⟨he1, rfl, hr ▸ hr0, by simp [h1], fun _ => hr ▸ he1⟩⟩
  · refine ⟨h.setFragment hp (hqe ▸ h.routes i) (hr ▸ hr2) hu, hu, hk, fun h1 => .inl (hr ▸ h1), ?_⟩
    rintro q' hq'
    obtain rfl := Option.some.inj hq'
    exact ⟨hq, hkey, hd, .inl ⟨h0, h1, by omega⟩⟩

/-- What a submission does to a packet: it is parked, queued, or queued with the packets parked before it. -/
inductive Placed (p : FlowPacket) (now : Nat) (d : Dispatch) (c : Place → List Nat) (d' : Dispatch) (free : List Nat)
    (x : Nat) : (Place → List Nat) → Prop
  | parked (hf : p.fragmented) (h1 : p.first = false) (hu : (d'.fragments p.context).used)
      (hk : (d'.fragments p.context).key = p.fragmentKey) (hr : (d'.fragments p.context).resolved = 0)
      (hd : now < (d'.fragments p.context).deadline) : Placed p now d c d' free x (parkAt c free p.context x)
  | queued (hf : p.fragmented = false) (q : Nat) (hq : q < d.workers) (hh : d'.Home p q) :
      Placed p now d c d' free x (queueAt c free q x)
  | flushed (hf : p.fragmented) (q : Nat) (hq : q < d.workers) (hu : (d'.fragments p.context).used)
      (hk : (d'.fragments p.context).key = p.fragmentKey) (hr : (d'.fragments p.context).resolved = 1)
      (hqe : (d'.fragments p.context).queue = q) (hd : now < (d'.fragments p.context).deadline)
      (hr2 : (d.fragments p.context).resolved ≠ 2) (h1 : p.first → d'.Home p q)
      (h0 : p.first = false → (d.fragments p.context).resolved = 1) :
      Placed p now d c d' free x (flushAt (queueAt c free q x) q p.context)

/-- The effect of a submission. -/
structure Submitted (parsed : Option FlowPacket) (now bytes : Nat) (d : Dispatch) (c : Place → List Nat) (d' : Dispatch)
    (c' : Place → List Nat) : Prop where
  inv : Inv d' c'
  workers : d'.workers = d.workers
  flows : d.FlowsKept d'
  kept : ∀ j, (d.fragments j).Kept (d'.fragments j)
  named : ∀ j, (d'.fragments j).resolved = 1 → (d.fragments j).resolved = 1 ∨
    ∃ p, parsed = some p ∧ p.fragmented ∧ p.first ∧ p.context = j ∧ (d'.fragments j).key = p.fragmentKey ∧
      d'.Home p (d'.fragments j).queue
  cases : (c' = c ∧ d'.freeCount = d.freeCount ∧ d'.drops = d.drops ++ [bytes]) ∨
    ∃ p free x, parsed = some p ∧ c .free = free ++ [x] ∧ (d.takeSlot false).isSome ∧ d'.freeCount + 1 = d.freeCount ∧
      d'.drops = d.drops ∧ Placed p now d c d' free x c'

theorem Placed.taken {p : FlowPacket} {now : Nat} {d' : Dispatch} {free : List Nat} {x : Nat} {c' : Place → List Nat}
    (h : Placed p now d c d' free x c') : c' .taken = c .taken := by
  cases h <;> simp [parkAt, queueAt, flushAt]

theorem Submitted.taken {parsed : Option FlowPacket} {now bytes : Nat} {d' : Dispatch} {c' : Place → List Nat}
    (h : Submitted parsed now bytes d c d' c') : c' .taken = c .taken := by
  rcases h.cases with ⟨rfl, -⟩ | ⟨p, free, x, -, -, -, -, -, hp⟩
  · rfl
  · exact hp.taken

theorem Home.congr {d d' : Dispatch} {p : FlowPacket} {q : Nat} (h : d.Home p q) (hf : d'.flowQueues = d.flowQueues) :
    d'.Home p q := by
  unfold Home at h ⊢
  rwa [hf]

/-- The cases of a submission. -/
theorem submit_outcome (h : Inv d c) (vnetHdrSz opened now : Nat) (buffer : List Byte) :
    ∃ c', Submitted (classify vnetHdrSz buffer) now buffer.length d c (d.submit vnetHdrSz opened now buffer) c' := by
  unfold submit
  rcases hp : classify vnetHdrSz buffer with _ | p
  · exact ⟨c, h.drop _, rfl, fun _ _ => rfl, fun _ => .refl _, fun _ hj => .inl hj, .inl ⟨rfl, rfl, rfl⟩⟩
  obtain ⟨h1, hq, hfl, hh⟩ := flowQueue_spec h p
  have hfr := d.flowQueue_frame p
  rcases heq : d.flowQueue p with ⟨d1, q⟩
  rw [heq] at h1 hq hfl hh hfr
  obtain ⟨flowQueues, nextQueue, hd1⟩ := hfr
  simp only at h1 hq hfl hh hd1
  have hw1 : d1.workers = d.workers := by rw [hd1]
  have hfc1 : d1.freeCount = d.freeCount := by rw [hd1]
  have hdr1 : d1.drops = d.drops := by rw [hd1]
  have hfe1 : d1.fragments = d.fragments := by rw [hd1]
  have hts1 : d1.takeSlot false = d.takeSlot false := by rw [hd1]; rfl
  simp only [submitLocked, heq]
  by_cases hf : p.fragmented
  · simp only [if_pos hf]
    rcases hg : ((d1.fragments p.context).setup p.fragmentKey opened).gate p q now with ⟨e, r⟩
    obtain ⟨h2, hu, hk, hn, hr⟩ := gate_spec h1 p (hw1 ▸ hq) opened now p.context hg
    simp only
    rw [hfe1] at hk hn hr
    generalize hd2 : ({ d1 with fragments := Function.update d1.fragments p.context e } : Dispatch) = d2 at h2
    have he : d2.fragments p.context = e := by rw [← hd2]; exact Function.update_self _ _ _
    have hw2 : d2.workers = d.workers := by rw [← hd2]; exact hw1
    have hfc2 : d2.freeCount = d.freeCount := by rw [← hd2]; exact hfc1
    have hdr2 : d2.drops = d.drops := by rw [← hd2]; exact hdr1
    have hfl2 : d2.flowQueues = d1.flowQueues := by rw [← hd2]
    have hts2 : d2.takeSlot false = d.takeSlot false := by rw [← hd2]; exact hts1
    have hk2 : ∀ j, (d.fragments j).Kept (d2.fragments j) := by
      intro j
      by_cases hj : j = p.context
      · subst hj
        rwa [he]
      · have : d2.fragments j = d.fragments j := by rw [← hd2, ← hfe1]; exact Function.update_of_ne hj _ _
        rw [this]
        exact .refl _
    have hn2 : ∀ j, (d2.fragments j).resolved = 1 → (d.fragments j).resolved = 1 ∨ ∃ p', some p = some p' ∧
        p'.fragmented ∧ p'.first ∧ p'.context = j ∧ (d2.fragments j).key = p'.fragmentKey ∧
        d2.Home p' (d2.fragments j).queue := by
      intro j hj
      by_cases hjc : j = p.context
      · subst hjc
        rw [he] at hj ⊢
        rcases hn hj with h1 | ⟨h1, hkey, rfl⟩
        · exact .inl h1
        · exact .inr ⟨p, rfl, hf, h1, rfl, hkey, hh.congr hfl2⟩
      · have : d2.fragments j = d.fragments j := by rw [← hd2, ← hfe1]; exact Function.update_of_ne hjc _ _
        exact .inl (this ▸ hj)
    rcases r with _ | q'
    · exact ⟨c, h2.drop _, hw2, fun b hb => (congrFun hfl2 b).trans (hfl b hb), hk2, hn2,
        .inl ⟨rfl, hfc2, by rw [← hdr2]; rfl⟩⟩
    obtain ⟨hq', hkey, hdl, hcase⟩ := hr q' rfl
    rcases admit_spec h2 (some p.context) (q := q') (by omega) (fun i hi => by
        obtain rfl := Option.some.inj hi
        rw [he]
        refine ⟨Nat.mod_lt _ (by decide), hu, fun h0 => ?_⟩
        rcases hcase with ⟨-, -, h8⟩ | ⟨h1, -⟩ <;> omega) vnetHdrSz buffer with
      hd | ⟨free, x, hfree, hsome, ha, c', hi, hc'⟩
    · simp only [hd]
      exact ⟨c, h2.drop _, hw2, fun b hb => (congrFun hfl2 b).trans (hfl b hb), hk2, hn2,
        .inl ⟨rfl, hfc2, by rw [← hdr2]; rfl⟩⟩
    · refine ⟨c', hi, ha.workers.trans hw2, fun b hb => (congrFun (ha.flows.trans hfl2) b).trans (hfl b hb),
        fun j => (hk2 j).trans (ha.fragments j).kept, fun j hj => ?_,
        .inr ⟨p, free, x, rfl, hfree, hts2 ▸ hsome, ha.freeCount.trans hfc2, ha.drops.trans hdr2, ?_⟩⟩
      · have hs := ha.fragments j
        rcases hn2 j (hs.resolved ▸ hj) with h1 | ⟨p', hp', hf', h1, hc1, hkey', hh'⟩
        · exact .inl h1
        · refine .inr ⟨p', hp', hf', h1, hc1, hs.key.trans hkey', ?_⟩
          rw [hs.queue]
          exact hh'.congr ha.flows
      · have hs := ha.fragments p.context
        rw [he] at hs
        simp only [he] at hc'
        rcases hcase with ⟨h0, h1, -⟩ | ⟨h1, hqe, hr2, hfst, hrest⟩
        · rw [if_pos h0] at hc'
          subst hc'
          exact .parked hf h1 (hs.used.trans hu) (hs.key.trans hkey) (hs.resolved.trans h0) (hs.deadline.symm ▸ hdl)
        · rw [if_neg (by omega)] at hc'
          subst hc'
          refine .flushed hf q' (hw1 ▸ hq') (hs.used.trans hu) (hs.key.trans hkey) (hs.resolved.trans h1)
              (hs.queue.trans hqe)
            (hs.deadline.symm ▸ hdl) hr2 (fun hf1 => ?_) hrest
          obtain rfl := hfst hf1
          exact (hh.congr hfl2).congr ha.flows
  · simp only [if_neg hf]
    rcases admit_spec h1 none (q := q) (hw1 ▸ hq) (by simp) vnetHdrSz buffer with
      hd | ⟨free, x, hfree, hsome, ha, c', hi, rfl⟩
    · rw [hd]
      exact ⟨c, h1.drop _, hw1, hfl, fun j => hfe1 ▸ .refl _, fun j hj => .inl (hfe1 ▸ hj),
        .inl ⟨rfl, hfc1, by rw [← hdr1]; rfl⟩⟩
    · refine ⟨_, hi, ha.workers.trans hw1, fun b hb => (congrFun ha.flows b).trans (hfl b hb),
        fun j => hfe1 ▸ (ha.fragments j).kept, fun j hj => .inl (hfe1 ▸ (ha.fragments j).resolved ▸ hj),
        .inr ⟨p, free, x, rfl, hfree, hts1 ▸ hsome, ha.freeCount.trans hfc1, ha.drops.trans hdr1, ?_⟩⟩
      exact .queued (by simpa using hf) q hq (hh.congr ha.flows)

/-! ### The other operations -/

/-- The invariant reads nothing of the frames, the tokens and the packets. -/
theorem Inv.congr (h : Inv d c) {d' : Dispatch} {c' : Place → List Nat} (hh : d'.Holds c') (hw : Whole c')
    (hworkers : d'.workers = d.workers) (hflows : d'.flowQueues = d.flowQueues) (hfr : d'.fragments = d.fragments)
    (hidle : ∀ w, c (.queue w) = [] → c' (.queue w) = []) (hp : ∀ i, (c' (.held i)).length ≤ (c (.held i)).length) :
    Inv d' c' where
  holds := hh
  whole := hw
  workers_pos := hworkers ▸ h.workers_pos
  workers_le := hworkers ▸ h.workers_le
  idle w hw := hidle w (h.idle w (hworkers ▸ hw))
  flows b := by
    rw [hflows, hworkers]
    exact h.flows b
  routes i := by
    rw [hfr, hworkers]
    exact h.routes i
  resolved i := hfr ▸ h.resolved i
  parked i := (hp i).trans (h.parked i)
  unused i := by
    rw [hfr]
    exact h.unused i

/-- The head of the ring goes to the worker. -/
theorem take_spec (h : Inv d c) (w : Nat) :
    (c (.queue w) = [] ∧ d.take w = (d, none)) ∨
    ∃ x l d', c (.queue w) = x :: l ∧ d.take w = (d', some (x, d.buffer x)) ∧
      Inv d' (Function.update (Function.update c (.queue w) l) .taken (x :: c .taken)) ∧ d'.freeCount = d.freeCount ∧
      d'.drops = d.drops ∧ d'.workers = d.workers ∧ d'.flowQueues = d.flowQueues ∧ d'.fragments = d.fragments := by
  by_cases h0 : d.count w = 0
  · refine .inl ⟨?_, if_pos h0⟩
    exact List.eq_nil_of_length_eq_zero ((h.holds.count_eq w).symm.trans h0)
  · obtain ⟨n, hn⟩ : ∃ n, d.count w = n + 1 := ⟨d.count w - 1, by omega⟩
    have hring := h.holds.queue w
    rw [hn, ring_pop] at hring
    refine .inr ⟨_, _, _, hring.symm, if_neg h0, ?_, rfl, rfl, rfl, rfl, rfl⟩
    have hmem : Place.queue w ∈ places := h.whole.mem_places (hring ▸ List.mem_cons_self)
    refine h.congr ?_ (h.whole.move hmem taken_mem_places (by simp)
      (m := [d.queues w ((d.head w).toNat % dispatchFrames)]) ?_ ?_ ?_) rfl rfl rfl ?_ ?_
    · refine ⟨h.holds.free, fun v => ?_, fun v => ?_, fun i => h.holds.held i⟩
      · by_cases hv : v = w
        · subst hv
          simp only [Function.update_self, ne_eq, reduceCtorEq, not_false_eq_true, Function.update_of_ne, hn,
            Nat.add_sub_cancel]
          refine ring_congr_head ?_ _ _
          simp only [BitVec.toNat_add, dispatchFrames, show (1 : BitVec 32).toNat = 1 from rfl]
          omega
        · have hne : Place.queue v ≠ Place.queue w := fun e => hv (Place.queue.inj e)
          simp only [Function.update_of_ne hv, ne_eq, reduceCtorEq, not_false_eq_true, Function.update_of_ne hne,
            Function.update_of_ne]
          exact h.holds.queue v
      · by_cases hv : v = w
        · subst hv
          simp only [Function.update_self, hn, Nat.add_sub_cancel, h.holds.tail v]
          rw [BitVec.ofNat_add, BitVec.add_assoc, BitVec.add_comm 1]
          rfl
        · simp only [Function.update_of_ne hv]
          exact h.holds.tail v
    · rw [← hring, Function.update_of_ne (by simp), Function.update_self]
      exact (List.perm_append_singleton _ _).symm
    · rw [Function.update_self]
      exact (List.perm_append_singleton _ _).symm
    · intro r hr hr'
      rw [Function.update_of_ne hr', Function.update_of_ne hr]
    · intro v hv
      have hvw : Place.queue v ≠ Place.queue w := by
        rintro e
        rw [Place.queue.inj e, ← hring] at hv
        cases hv
      simpa [Function.update_of_ne hvw] using hv
    · intro i
      simp

/-- A slot a worker gives back goes on the free stack. -/
theorem release_spec (h : Inv d c) {slot : Nat} (hs : slot ∈ c .taken) :
    Inv (d.release slot) (Function.update (Function.update c .taken ((c .taken).erase slot)) .free
        (c .free ++ [slot])) := by
  refine h.congr ?_ (h.whole.move taken_mem_places free_mem_places (by simp) (m := [slot]) ?_ ?_ ?_) rfl rfl rfl ?_ ?_
  · have hf : (d.release slot).Holds _ := h.holds.freeLocked slot
    exact ⟨by simpa using hf.free, fun w => by simpa using hf.queue w, hf.tail, fun i => by simpa using hf.held i⟩
  · simpa using (List.perm_cons_erase hs).trans (List.perm_append_singleton _ _).symm
  · simp
  · intro r hr hr'
    rw [Function.update_of_ne hr', Function.update_of_ne hr]
  · intro w hw
    simpa using hw
  · intro i
    simp

theorem halt_spec (h : Inv d c) : Inv d.halt c :=
  h.congr { h.holds with } h.whole rfl rfl rfl (fun _ => id) fun _ => le_rfl

/-- The effect of an expiry: some contexts in use are closed and their lists given back. -/
structure Expired (now : Nat) (d : Dispatch) (c : Place → List Nat) (d' : Dispatch) (c' : Place → List Nat) : Prop where
  inv : Inv d' c'
  workers : d'.workers = d.workers
  flows : d'.flowQueues = d.flowQueues
  queue : ∀ w, c' (.queue w) = c (.queue w)
  taken : c' .taken = c .taken
  dropped : d'.drops.length + d.freeCount = d.drops.length + d'.freeCount
  entry : ∀ i, d'.fragments i = d.fragments i ∧ c' (.held i) = c (.held i) ∨
    (d.fragments i).Kept (d'.fragments i) ∧ (d'.fragments i).resolved = 2 ∧ c' (.held i) = []

theorem Expired.refl (h : Inv d c) (now : Nat) : Expired now d c d c :=
  ⟨h, rfl, rfl, fun _ => rfl, rfl, rfl, fun _ => .inl ⟨rfl, rfl⟩⟩

theorem Expired.trans {now : Nat} {d' d'' : Dispatch} {c' c'' : Place → List Nat} (h : Expired now d c d' c')
    (h' : Expired now d' c' d'' c'') : Expired now d c d'' c'' where
  inv := h'.inv
  workers := h'.workers.trans h.workers
  flows := h'.flows.trans h.flows
  queue w := (h'.queue w).trans (h.queue w)
  taken := h'.taken.trans h.taken
  dropped := by
    have := h.dropped
    have := h'.dropped
    omega
  entry i := by
    rcases h'.entry i with ⟨hf', hc'⟩ | ⟨hk', hr', hc'⟩
    · rw [hf', hc']
      exact h.entry i
    · rcases h.entry i with ⟨hf, -⟩ | ⟨hk, -, -⟩
      · exact .inr ⟨hf ▸ hk', hr', hc'⟩
      · exact .inr ⟨hk.trans hk', hr', hc'⟩

/-- An expired context. -/
private theorem expireEntry_spec (h : Inv d c) (now : Nat) {i : Nat} (hi : i < dispatchFragments) :
    ∃ c', Expired now d c (expireEntry now d i) c' := by
  unfold expireEntry
  simp only
  split
  · exact ⟨c, .refl h now⟩
  rename_i hg
  simp only [not_or, not_lt] at hg
  obtain ⟨hu, hr, hd⟩ := hg
  replace hu : (d.fragments i).used := by simpa using hu
  have hp := h.holds.held i
  have hdrop := h.holds.dropHeld (h.whole.length_le _) (hp.linked hu)
  obtain ⟨pool, freeSlots, drops, hlen, hfr⟩ := dropHeld_frame (h.whole.length_le _) (hp.linked hu)
  have hset := hdrop.setFragment (i := i) (l := []) (n := d.next) (e := { d.fragments i with
    first := none
    last := none
    count := 0
    resolved := 2 }) ⟨fun _ => .nil, fun _ => rfl, rfl, fun _ => rfl⟩ fun j _ a _ => by rw [hfr]
  rw [hfr] at hset ⊢
  have hw : Whole (Function.update (Function.update c .free (c .free ++ c (.held i))) (.held i) []) :=
    h.whole.move (held_mem_places.mpr hi) free_mem_places (by simp) (m := c (.held i)) (by simp) (by simp)
      fun r hr hr' => by simp [Function.update_of_ne hr, Function.update_of_ne hr']
  refine ⟨_, ⟨{ hset with }, hw, h.workers_pos, h.workers_le, fun w hw => by simpa using h.idle w hw, h.flows, fun j
      => ?_,
    fun j => ?_, fun j => ?_, fun j hj => ?_⟩, rfl, rfl, fun w => by simp, by simp, ?_, fun j => ?_⟩
  · by_cases hji : j = i
    · subst hji
      simpa using h.routes j
    · simpa [hji] using h.routes j
  · by_cases hji : j = i
    · subst hji
      simp
    · simpa [hji] using h.resolved j
  · by_cases hji : j = i
    · subst hji
      simp
    · simpa [hji] using h.parked j
  · by_cases hji : j = i
    · subst hji
      simp [hu] at hj
    · simp only [Function.update_of_ne hji] at hj ⊢
      exact h.unused j hj
  · simp only
    omega
  · by_cases hji : j = i
    · subst hji
      simp only [Function.update_self]
      exact .inr ⟨⟨id, fun _ => rfl, fun _ => rfl, fun _ => ⟨by simp, rfl⟩, fun _ => rfl⟩, trivial, trivial⟩
    · simp only [Function.update_of_ne hji]
      exact .inl ⟨trivial, by simp [hji]⟩

/-- The pass over the contexts. -/
theorem expire_spec (h : Inv d c) (now : Nat) : ∃ c', Expired now d c (d.expire now) c' := by
  have hloop : ∀ (l : List Nat), (∀ i ∈ l, i < dispatchFragments) → ∀ {d c}, Inv d c →
      ∃ c', Expired now d c (l.foldl (expireEntry now) d) c' := by
    intro l
    induction l with
    | nil => exact fun _ d c h => ⟨c, .refl h now⟩
    | cons i l ih =>
      intro hl d c h
      obtain ⟨c1, h1⟩ := expireEntry_spec h now (hl i (by simp))
      obtain ⟨c2, h2⟩ := ih (fun j hj => hl j (by simp [hj])) h1.inv
      exact ⟨c2, h1.trans h2⟩
  unfold expire
  split
  · exact ⟨c, .refl h now⟩
  · have hs : Inv { d with lastExpire := now } c :=
      h.congr { h.holds with } h.whole rfl rfl rfl (fun _ => id) fun _ => le_rfl
    obtain ⟨c', hc⟩ := hloop (List.range dispatchFragments) (fun i hi => List.mem_range.mp hi) hs
    exact ⟨c', { hc with }⟩

/-- `dispatch_init` accepts one to eight workers. -/
theorem exists_init {workers : Nat} (h0 : 0 < workers) (h8 : workers ≤ expWorkers) :
    ∃ d, dispatchInit workers = .ok d := by
  obtain ⟨pool, hp⟩ := PacketFramePool.exists_init (f := fun _ => ⟨true, recvBufSize, 0, 0, 0, .free⟩)
    (n := dispatchFrames) (k := 1) (by decide) (by decide) fun i _ => ⟨rfl, by decide⟩
  unfold dispatchInit
  rw [if_neg (by omega), hp]
  exact ⟨_, rfl⟩

/-- All slots on the free stack. -/
def allFree : Place → List Nat
  | .free => List.range dispatchFrames
  | _ => []

private theorem allFree_whole : Whole allFree where
  slots := by
    rw [Bins.split free_mem_places, Bins.congr (c := fun _ => []) fun p hp => ?_]
    · simp [Bins, allFree, Multiset.range]
    · cases p with
      | free => simp at hp
      | _ => rfl
  outside p hp := by
    cases p with
    | free => simp at hp
    | _ => rfl

/-- After `dispatch_init` all slots are free and nothing was dropped. -/
theorem init_spec {workers : Nat} (hd : dispatchInit workers = .ok d) :
    Inv d allFree ∧ d.drops = [] ∧ d.workers = workers ∧ d.fragments = fun _ =>
        ⟨List.replicate 40 0, false, 0, 0, 0, some 0, some 0, 0⟩ := by
  unfold dispatchInit at hd
  split at hd
  · cases hd
  rename_i hw
  simp only [not_or, not_lt] at hw
  split at hd
  · cases hd
  obtain rfl := Except.ok.inj hd
  have hfree : stack id dispatchFrames = allFree .free := by simp [stack, allFree]
  have hparks : ∀ next, (⟨List.replicate 40 0, false, 0, 0, 0, some 0, some 0, 0⟩ : FragmentEntry).Parks next [] :=
    fun _ => ⟨by simp, by simp, rfl, fun _ => rfl⟩
  have hpos : 0 < workers := by omega
  refine ⟨⟨⟨hfree, fun _ => rfl, fun _ => rfl, fun _ => hparks _⟩, allFree_whole, hpos, hw.2, fun _ _ => rfl,
    fun _ => Nat.zero_le _, fun _ => hpos, fun _ => Nat.zero_le _, fun _ => Nat.zero_le _, fun _ _ => rfl⟩, rfl, rfl,
        rfl⟩

end Dispatch

end Tayga
