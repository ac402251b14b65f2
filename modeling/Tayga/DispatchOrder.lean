import Tayga.DispatchRuns

/-!
# Affinity and order of the dispatcher

Which packets are on the queue of which worker, and in which order.  Every call moves the packets in one of four ways
(`Effect`): they stay where they are, or the new packet is parked in its fragment context, queued, or queued with the
packets parked in its context.  The invariant `Sorted` says that a queued packet is on the queue of its flow or of its
datagram, and that the packets that go by their flow are queued in the order of their submission.
-/

namespace Tayga

open SlotPool

/-- Unfragmented or first, with a transport key: the packet goes by its flow. -/
def FlowPacket.ByFlow (p : FlowPacket) : Prop := p.transport ∧ (p.fragmented → p.first)

/-- A fragment that is not the first. -/
def FlowPacket.Later (p : FlowPacket) : Prop := p.fragmented ∧ p.first = false

/-- The classifier takes the fragment fields of a packet from its network headers. -/
theorem flowParseDepth_headers {quoted : Mem → Nat → Option FlowPacket} {m : Mem} {n depth : Nat} {p : FlowPacket}
    (h : flowParseDepth quoted m n depth = some p) : ∃ hd, flowHeaders m n depth = some hd ∧
      p.fragmentKey = hd.packet.fragmentKey ∧ p.fragmentHash = hd.packet.fragmentHash ∧
      p.fragmented = hd.packet.fragmented ∧ p.first = hd.packet.first := by
  unfold flowParseDepth at h
  rcases hh : flowHeaders m n depth with _ | hd
  · simp [hh] at h
  · refine ⟨hd, rfl, ?_⟩
    simp only [hh] at h
    split at h
    · obtain rfl := Option.some.inj h
      exact ⟨rfl, rfl, rfl, rfl⟩
    split at h
    · split at h
      · cases h
      · obtain rfl := Option.some.inj h
        exact ⟨rfl, rfl, rfl, rfl⟩
    split at h
    · split at h
      · obtain rfl := Option.some.inj h
        exact ⟨rfl, rfl, rfl, rfl⟩
      · split at h <;> obtain rfl := Option.some.inj h <;> exact ⟨rfl, rfl, rfl, rfl⟩
    · obtain rfl := Option.some.inj h
      exact ⟨rfl, rfl, rfl, rfl⟩

/-- Fragments with the same key meet in the same context. -/
theorem context_eq {v : Nat} {a b : List Byte} {p q : FlowPacket} (hp : classify v a = some p)
    (hq : classify v b = some q) (hpf : p.fragmented) (hqf : q.fragmented)
    (hk : p.fragmentKey = q.fragmentKey) : p.context = q.context := by
  have hash : ∀ {l : List Byte} {r : FlowPacket}, classify v l = some r → r.fragmented →
      r.fragmentHash = flowHashBytes r.fragmentKey := by
    intro l r hr hf
    unfold classify at hr
    split at hr
    · cases hr
    · obtain ⟨hd, -, hkey, hhash, hfr, -⟩ := flowParseDepth_headers hr
      rw [hhash, hkey]
      rw [hfr] at hf
      exact if_pos hf
  unfold FlowPacket.context
  rw [hash hp hpf, hash hq hqf, hk]

namespace Dispatching

/-- What the classifier says of a packet. -/
def parsed (v : Nat) (s : Dispatching) (k : Nat) : Option FlowPacket :=
  s.packets[k]?.bind (classify v)

/-- The packets put on the queue of a worker, in this order: those taken from it, and those still on it. -/
def queued (s : Dispatching) (w : Nat) : List Nat :=
  (s.took.filter (·.1 = w)).map Prod.snd ++ (s.content (.queue w)).map s.stamp

/-- The packets parked in a fragment context, in this order. -/
def parked (s : Dispatching) (i : Nat) : List Nat := (s.content (.held i)).map s.stamp

variable {v : Nat} {s s' : Dispatching} {c : Place → List Nat}

theorem parsed_append {l : List (List Byte)} (hl : s'.packets = s.packets ++ l) {k : Nat} (hk : k < s.packets.length) :
    s'.parsed v k = s.parsed v k := by
  unfold parsed
  rw [hl, List.getElem?_append_left hk]

theorem lt_of_parsed {k : Nat} {p : FlowPacket} (h : s.parsed v k = some p) : k < s.packets.length := by
  by_contra hk
  simp [parsed, List.getElem?_eq_none (not_lt.mp hk)] at h

private theorem parsed_mono {l : List (List Byte)} (hl : s'.packets = s.packets ++ l) {k : Nat} {p : FlowPacket}
    (h : s.parsed v k = some p) : s'.parsed v k = some p :=
  (parsed_append hl (lt_of_parsed h)).trans h

/-! ### What a call does to the packets -/

/-- How the packets move in one call: they stay, except that those of expired contexts are dropped; or the new packet
`s.packets.length` is parked, queued, or queued with those parked in its context. -/
inductive Effect (v : Nat) (s s' : Dispatching) : Prop
  | still (hf : s'.packets = s.packets ∨ s'.d.freeCount = s.d.freeCount) (hq : ∀ w, s'.queued w = s.queued w)
      (hp : ∀ i, s'.parked i = s.parked i ∨ s'.parked i = [])
  | parked (p : FlowPacket) (hn : s'.parsed v s.packets.length = some p) (hl : p.Later)
      (hu : (s'.d.fragments p.context).used) (hk : (s'.d.fragments p.context).key = p.fragmentKey)
      (hr : (s'.d.fragments p.context).resolved = 0)
      (hd : s'.now < (s'.d.fragments p.context).deadline)
      (hq : ∀ w, s'.queued w = s.queued w) (hp : s'.parked p.context = s.parked p.context ++ [s.packets.length])
      (ho : ∀ i, i ≠ p.context → s'.parked i = s.parked i)
  | queued (p : FlowPacket) (hn : s'.parsed v s.packets.length = some p) (hf : p.fragmented = false) (q : Nat)
      (hh : s'.d.Home p q) (hq : s'.queued q = s.queued q ++ [s.packets.length])
      (ho : ∀ w, w ≠ q → s'.queued w = s.queued w) (hp : ∀ i, s'.parked i = s.parked i)
  | flushed (p : FlowPacket) (hn : s'.parsed v s.packets.length = some p) (hf : p.fragmented) (q : Nat)
      (hu : (s'.d.fragments p.context).used) (hk : (s'.d.fragments p.context).key = p.fragmentKey)
      (hr : (s'.d.fragments p.context).resolved = 1)
      (hqe : (s'.d.fragments p.context).queue = q) (hd : s'.now < (s'.d.fragments p.context).deadline)
      (hr2 : (s.d.fragments p.context).resolved ≠ 2) (h1 : p.first → s'.d.Home p q)
      (h0 : p.first = false → (s.d.fragments p.context).resolved = 1) (hs : (s.d.takeSlot false).isSome)
      (hq : s'.queued q = s.queued q ++ s.packets.length :: s.parked p.context)
      (ho : ∀ w, w ≠ q → s'.queued w = s.queued w) (hp : s'.parked p.context = [])
      (hpo : ∀ i, i ≠ p.context → s'.parked i = s.parked i)

/-- One call. -/
structure Stepped (v : Nat) (s s' : Dispatching) : Prop where
  packets : ∃ l, s'.packets = s.packets ++ l
  flows : s.d.FlowsKept s'.d
  kept : ∀ j, (s.d.fragments j).Kept (s'.d.fragments j)
  named : ∀ j, (s'.d.fragments j).resolved = 1 → (s.d.fragments j).resolved = 1 ∨
    ∃ k p, s'.parsed v k = some p ∧ p.fragmented ∧ p.first ∧ (s'.d.fragments j).key = p.fragmentKey ∧
      s'.d.Home p (s'.d.fragments j).queue
  effect : Effect v s s'

theorem queued_eq (h : s.Inv c) (w : Nat) :
    s.queued w = (s.took.filter (·.1 = w)).map Prod.snd ++ (c (.queue w)).map s.stamp := by
  unfold queued
  rw [h.content_eq]

theorem parked_eq (h : s.Inv c) (i : Nat) : s.parked i = (c (.held i)).map s.stamp := by
  unfold parked
  rw [h.content_eq]

/-- A context with a queue is in use. -/
theorem Inv.used (h : s.Inv c) (i : Nat) (hi : (s.d.fragments i).resolved = 1) : (s.d.fragments i).used := by
  by_contra hu
  have := h.inv.unused i (by simpa using hu)
  omega

/-- A call that does not submit leaves the packets where they are, but for contexts it empties. -/
private theorem Stepped.of_still (h : s.Inv c) {c' : Place → List Nat} (h' : s'.Inv c') (hp : s'.packets = s.packets)
    (hs : s'.stamp = s.stamp) (hf : s'.d.flowQueues = s.d.flowQueues)
    (hq : ∀ w, s'.queued w = s.queued w)
    (he : ∀ i, s'.d.fragments i = s.d.fragments i ∧ c' (.held i) = c (.held i) ∨
      (s.d.fragments i).Kept (s'.d.fragments i) ∧ (s'.d.fragments i).resolved = 2 ∧ c' (.held i) = []) :
    Stepped v s s' where
  packets := ⟨[], by rw [hp, List.append_nil]⟩
  flows b _ := congrFun hf b
  kept j := by
    rcases he j with ⟨hj, -⟩ | ⟨hj, -, -⟩
    · exact hj ▸ .refl _
    · exact hj
  named j hj := by
    rcases he j with ⟨hf, -⟩ | ⟨-, hr, -⟩
    · exact .inl (hf ▸ hj)
    · omega
  effect := .still (.inl hp) hq fun i => by
    rw [parked_eq h, parked_eq h', hs]
    rcases he i with ⟨-, hc⟩ | ⟨-, -, hc⟩
    · exact .inl (by rw [hc])
    · exact .inr (by rw [hc]; rfl)

/-- The number of the new packet is written for its slot only. -/
private theorem map_stamp {l : List Nat} {x n : Nat} (hx : x ∉ l) (stamp : Nat → Nat) :
    l.map (Function.update stamp x n) = l.map stamp := by
  refine List.map_congr_left fun a ha => Function.update_of_ne ?_ _ _
  rintro rfl
  exact hx ha

/-- A submission. -/
theorem Stepped.submit (h : s.Inv c) (opened now : Nat) (buffer : List Byte) :
    Stepped v s (dispatchStep v s (.submit opened now buffer)) := by
  obtain ⟨c', hs⟩ := Dispatch.submit_outcome h.inv v opened now buffer
  have h' := h.submit hs
  have hd : (dispatchStep v s (.submit opened now buffer)).d = s.d.submit v opened now buffer := rfl
  have hp : (dispatchStep v s (.submit opened now buffer)).packets = s.packets ++ [buffer] := rfl
  have ht : (dispatchStep v s (.submit opened now buffer)).took = s.took := rfl
  have hnow : (dispatchStep v s (.submit opened now buffer)).now = now := rfl
  have hst : (dispatchStep v s (.submit opened now buffer)).stamp =
      if (s.d.submit v opened now buffer).freeCount < s.d.freeCount then
        Function.update s.stamp (s.d.freeSlots (s.d.submit v opened now buffer).freeCount) s.packets.length
      else s.stamp := rfl
  generalize dispatchStep v s (.submit opened now buffer) = s' at *
  rw [← hd] at hs hst
  have hn : s'.parsed v s.packets.length = classify v buffer := by
    simp [parsed, hp]
  refine ⟨⟨_, hp⟩, hs.flows, hs.kept, fun j hj => ?_, ?_⟩
  · rcases hs.named j hj with h1 | ⟨p, hcl, hf, h1, -, hk, hh⟩
    · exact .inl h1
    · exact .inr ⟨s.packets.length, p, hn.trans hcl, hf, h1, hk, hh⟩
  · rcases hs.cases with ⟨rfl, hfc, -⟩ | ⟨p, free, x, hcl, hfree, hsome, hcount, -, hpl⟩
    · rw [if_neg (by omega)] at hst
      refine .still (.inr (hd ▸ hfc)) (fun w => ?_) fun i => .inl ?_
      · rw [queued_eq h, queued_eq h', ht, hst]
      · rw [parked_eq h, parked_eq h', hst]
    · have hx : x ∈ c .free := by rw [hfree]; simp
      have hxq : ∀ w, x ∉ c (.queue w) := fun w hw => Place.noConfusion (h.inv.whole.eq_of_mem hw hx)
      have hxh : ∀ i, x ∉ c (.held i) := fun i hi => Place.noConfusion (h.inv.whole.eq_of_mem hi hx)
      rw [if_pos (by omega), top_eq h.inv hfree hcount] at hst
      have hsx : s'.stamp x = s.packets.length := by rw [hst, Function.update_self]
      have hmq : ∀ w, (c (.queue w)).map s'.stamp = (c (.queue w)).map s.stamp := fun w => by rw
          [hst, map_stamp (hxq w)]
      have hmh : ∀ i, (c (.held i)).map s'.stamp = (c (.held i)).map s.stamp := fun i => by rw [hst, map_stamp (hxh i)]
      have hnp := hn.trans hcl
      cases hpl with
      | parked hf h1 hu hk hr hdl =>
        refine .parked p hnp ⟨hf, h1⟩ hu hk hr (hnow ▸ hdl) (fun w => ?_) ?_ fun i hi => ?_
        · rw [queued_eq h, queued_eq h', ht]
          simp [Dispatch.parkAt, hmq]
        · rw [parked_eq h, parked_eq h']
          simp [Dispatch.parkAt, hmh, hsx]
        · rw [parked_eq h, parked_eq h']
          simp [Dispatch.parkAt, hmh, hi]
      | queued hf q hq hh =>
        refine .queued p hnp hf q hh ?_ (fun w hw => ?_) fun i => ?_
        · rw [queued_eq h, queued_eq h', ht]
          simp [Dispatch.queueAt, hmq, hsx]
        · rw [queued_eq h, queued_eq h', ht]
          simp [Dispatch.queueAt, hmq, hw]
        · rw [parked_eq h, parked_eq h']
          simp [Dispatch.queueAt, hmh]
      | flushed hf q hq hu hk hr hqe hdl hr2 h1 h0 =>
        refine .flushed p hnp hf q hu hk hr hqe (hnow ▸ hdl) hr2 h1 h0 hsome ?_ (fun w hw => ?_) ?_ fun i hi => ?_
        · rw [queued_eq h, queued_eq h', parked_eq h, ht]
          simp [Dispatch.flushAt, Dispatch.queueAt, hmq, hmh, hsx]
        · rw [queued_eq h, queued_eq h', ht]
          simp [Dispatch.flushAt, Dispatch.queueAt, hmq, hw]
        · rw [parked_eq h']
          simp [Dispatch.flushAt]
        · rw [parked_eq h, parked_eq h']
          simp [Dispatch.flushAt, Dispatch.queueAt, hmh, hi]

/-- Every call. -/
theorem Stepped.step (h : s.Inv c) (e : DispatchEvent) : Stepped v s (dispatchStep v s e) := by
  have hself : Stepped v s s := .of_still h h rfl rfl rfl (fun _ => rfl) fun _ => .inl ⟨rfl, rfl⟩
  cases e with
  | submit opened now buffer => exact .submit h opened now buffer
  | take worker =>
    rcases h.take v worker with hs | ⟨x, l, d', hq, hfl, hfr, hs, h'⟩
    · exact hs.symm ▸ hself
    · rw [hs] at h' ⊢
      refine .of_still h h' rfl rfl hfl (fun w => ?_) fun i => .inl ⟨congrFun hfr i, by simp [takenAt]⟩
      -- the packet leaves the ring and joins those taken, so the sequence is the same
      rw [queued_eq h, queued_eq h']
      by_cases hw : w = worker
      · subst hw
        simp [takenAt, hq, List.filter_append]
      · simp [takenAt, hw, Ne.symm hw, List.filter_append]
  | release slot =>
    by_cases hm : slot ∈ s.taken
    · have h' := h.release v hm
      simp only [dispatchStep, if_pos hm] at h' ⊢
      refine .of_still h h' rfl rfl rfl (fun w => ?_) fun i => .inl ⟨rfl, by simp [releasedAt]⟩
      rw [queued_eq h, queued_eq h']
      simp [releasedAt]
    · simpa only [dispatchStep, if_neg hm] using hself
  | expire now =>
    obtain ⟨c', hx⟩ := Dispatch.expire_spec h.inv now
    have h' := h.expire v hx
    refine .of_still h h' rfl rfl hx.flows (fun w => ?_) hx.entry
    rw [queued_eq h, queued_eq h', hx.queue]
    rfl
  | stop => exact .of_still h (h.stop v) rfl rfl rfl (fun _ => rfl) fun _ => .inl ⟨rfl, rfl⟩

/-! ### The law of the queues -/

/-- A first fragment with this key goes, by its flow, to the queue `w`. -/
def Named (v : Nat) (s : Dispatching) (key : List Byte) (w : Nat) : Prop :=
  ∃ k p, s.parsed v k = some p ∧ p.fragmented ∧ p.first ∧ p.fragmentKey = key ∧ s.d.Home p w

/-- The queue `w` is the one for this packet. -/
structure Routed (v : Nat) (s : Dispatching) (w : Nat) (p : FlowPacket) : Prop where
  flow : p.ByFlow → s.d.flowQueues p.bucket = w + 1
  used : p.fragmented → (s.d.fragments p.context).used
  key : p.fragmented → (s.d.fragments p.context).key = p.fragmentKey
  queue : p.fragmented → (s.d.fragments p.context).resolved ≠ 0 ∧ (s.d.fragments p.context).queue = w
  named : p.fragmented → s.Named v p.fragmentKey w

/-- The packets parked in a context wait there for its datagram. -/
structure Waits (v : Nat) (s : Dispatching) (i k : Nat) (p : FlowPacket) : Prop where
  parsed : s.parsed v k = some p
  later : p.Later
  context : p.context = i
  used : (s.d.fragments i).used
  key : (s.d.fragments i).key = p.fragmentKey

/-- Of two packets in this list that are related by `R`, the one submitted first comes first. -/
def InOrder (v : Nat) (s : Dispatching) (R : FlowPacket → FlowPacket → Prop) (l : List Nat) : Prop :=
  l.Pairwise fun a b => ∀ p q, s.parsed v a = some p → s.parsed v b = some q → R p q → a < b

/-- The invariant of the queues. -/
structure Sorted (v : Nat) (s : Dispatching) : Prop where
  routed : ∀ w, ∀ k ∈ s.queued w, ∃ p, s.parsed v k = some p ∧ s.Routed v w p
  waits : ∀ i, ∀ k ∈ s.parked i, ∃ p, s.Waits v i k p
  increasing : ∀ i, (s.parked i).Pairwise (· < ·)
  apart : ∀ i, ∀ k ∈ s.parked i, ∀ w, k ∉ s.queued w
  named : ∀ i, (s.d.fragments i).resolved = 1 → s.Named v (s.d.fragments i).key (s.d.fragments i).queue
  flow_order : ∀ w, s.InOrder v (fun p q => p.ByFlow ∧ q.ByFlow) (s.queued w)

private theorem home_mono {d d' : Dispatch} (h : d.FlowsKept d') {p : FlowPacket} {w : Nat} (hh : d.Home p w) :
    d'.Home p w
    := by
  unfold Dispatch.Home at hh ⊢
  split
  · rename_i ht
    rw [if_pos ht] at hh
    rw [h _ (by omega), hh]
  · rename_i ht
    rwa [if_neg ht] at hh

theorem Named.mono (hs : Stepped v s s') {key : List Byte} {w : Nat} (h : s.Named v key w) :
    s'.Named v key w := by
  obtain ⟨k, p, hp, hf, h1, hk, hh⟩ := h
  obtain ⟨l, hl⟩ := hs.packets
  exact ⟨k, p, parsed_mono hl hp, hf, h1, hk, home_mono hs.flows hh⟩

theorem Routed.mono (hs : Stepped v s s') {w : Nat} {p : FlowPacket} (h : s.Routed v w p) :
    s'.Routed v w p where
  flow hf := by
    have := h.flow hf
    rw [hs.flows _ (by omega), this]
  used hf := (hs.kept _).used (h.used hf)
  key hf := ((hs.kept _).key (h.used hf)).trans (h.key hf)
  queue hf := by
    obtain ⟨hr, hq⟩ := h.queue hf
    obtain ⟨hr', hq'⟩ := (hs.kept p.context).named hr
    exact ⟨hr', hq'.trans hq⟩
  named hf := (h.named hf).mono hs

theorem Waits.mono (hs : Stepped v s s') {i k : Nat} {p : FlowPacket} (h : s.Waits v i k p) :
    s'.Waits v i k p where
  parsed := by
    obtain ⟨l, hl⟩ := hs.packets
    exact parsed_mono hl h.parsed
  later := h.later
  context := h.context
  used := (hs.kept i).used h.used
  key := ((hs.kept i).key h.used).trans h.key

namespace Sorted

theorem queued_lt (h : s.Sorted v) {w k : Nat} (hk : k ∈ s.queued w) : k < s.packets.length := by
  obtain ⟨p, hp, -⟩ := h.routed w k hk
  exact lt_of_parsed hp

theorem parked_lt (h : s.Sorted v) {i k : Nat} (hk : k ∈ s.parked i) : k < s.packets.length := by
  obtain ⟨p, hp⟩ := h.waits i k hk
  exact lt_of_parsed hp.parsed

/-- A packet is parked in the context of its key only. -/
theorem context_unique (h : s.Sorted v) {i j k : Nat} (hi : k ∈ s.parked i) (hj : k ∈ s.parked j) : i = j := by
  obtain ⟨p, hp⟩ := h.waits i k hi
  obtain ⟨q, hq⟩ := h.waits j k hj
  obtain rfl := Option.some.inj (hp.parsed.symm.trans hq.parsed)
  exact hp.context.symm.trans hq.context

private theorem named_step (h : s.Sorted v) (hs : Stepped v s s') (hu : ∀ i, (s.d.fragments i).resolved = 1 →
    (s.d.fragments i).used)
    (i : Nat) (hi : (s'.d.fragments i).resolved = 1) :
    s'.Named v (s'.d.fragments i).key (s'.d.fragments i).queue := by
  rcases hs.named i hi with h1 | ⟨k, p, hp, hf, hfst, hk, hh⟩
  · have hk := hs.kept i
    rw [hk.key (hu i h1), (hk.named (by omega)).2]
    exact (h.named i h1).mono hs
  · exact ⟨k, p, hp, hf, hfst, hk.symm, hh⟩

theorem routed_mono (h : s.Sorted v) (hs : Stepped v s s') {w k : Nat} (hk : k ∈ s.queued w) :
    ∃ p, s'.parsed v k = some p ∧ s'.Routed v w p := by
  obtain ⟨l, hl⟩ := hs.packets
  obtain ⟨p, hp, hr⟩ := h.routed w k hk
  exact ⟨p, parsed_mono hl hp, hr.mono hs⟩

theorem waits_mono (h : s.Sorted v) (hs : Stepped v s s') {i k : Nat} (hk : k ∈ s.parked i) :
    ∃ p, s'.Waits v i k p := by
  obtain ⟨p, hp⟩ := h.waits i k hk
  exact ⟨p, hp.mono hs⟩

/-- The order of the queued packets, read with the classification of the next state. -/
theorem inOrder_mono (h : s.Sorted v) (hs : Stepped v s s') {R : FlowPacket → FlowPacket → Prop} {w : Nat}
    (hr : s.InOrder v R (s.queued w)) : s'.InOrder v R (s.queued w) := by
  obtain ⟨l, hl⟩ := hs.packets
  refine hr.imp_of_mem fun ha hb hab p q hp hq => hab p q ?_ ?_
  · rwa [parsed_append hl (h.queued_lt ha)] at hp
  · rwa [parsed_append hl (h.queued_lt hb)] at hq

/-- A new packet may always be put at the end. -/
theorem inOrder_append (h : s.Sorted v) {R : FlowPacket → FlowPacket → Prop} {w : Nat}
    (hr : s'.InOrder v R (s.queued w)) : s'.InOrder v R (s.queued w ++ [s.packets.length]) := by
  refine List.pairwise_append.mpr ⟨hr, List.pairwise_singleton _ _, fun a ha b hb => ?_⟩
  rw [List.mem_singleton.mp hb]
  exact fun _ _ _ _ _ => h.queued_lt ha

/-- The parked packets follow the new one, when none before them belongs behind. -/
theorem inOrder_flush (h : s.Sorted v) {R : FlowPacket → FlowPacket → Prop} {w i : Nat}
    (hr : s'.InOrder v R (s.queued w))
    (hc : ∀ a b, a ∈ s.queued w ++ [s.packets.length] → b ∈ s.parked i →
      ∀ p q, s'.parsed v a = some p → s'.parsed v b = some q → R p q → a < b) :
    s'.InOrder v R (s.queued w ++ s.packets.length :: s.parked i) := by
  rw [List.append_cons]
  exact List.pairwise_append.mpr ⟨h.inOrder_append hr, (h.increasing i).imp fun hab _ _ _ _ _ => hab,
    fun a ha b hb => hc a b ha hb⟩

/-- Every call keeps the queues in order. -/
theorem step (h : s.Sorted v) (hs : Stepped v s s')
    (hu : ∀ i, (s.d.fragments i).resolved = 1 → (s.d.fragments i).used) : s'.Sorted v := by
  have hnamed := h.named_step hs hu
  have horder := fun w => h.inOrder_mono hs (h.flow_order w)
  cases hs.effect with
  | still hf hq hp =>
    refine ⟨fun w k hk => h.routed_mono hs (hq w ▸ hk), fun i k hk => ?_, fun i => ?_, fun i k hk w => ?_, hnamed,
      fun w => hq w ▸ horder w⟩
    · rcases hp i with he | he <;> rw [he] at hk
      · exact h.waits_mono hs hk
      · exact absurd hk List.not_mem_nil
    · rcases hp i with he | he <;> rw [he]
      · exact h.increasing i
      · exact .nil
    · rcases hp i with he | he <;> rw [he] at hk
      · rw [hq]
        exact h.apart i k hk w
      · exact absurd hk List.not_mem_nil
  | parked p hn hl hu' hk hr hd hq hp ho =>
    -- the new packet is the last of its context
    refine ⟨fun w k hk => h.routed_mono hs (hq w ▸ hk), fun i k hki => ?_, fun i => ?_, fun i k hki w => ?_, hnamed,
      fun w => hq w ▸ horder w⟩
    · by_cases hi : i = p.context
      · subst hi
        rw [hp] at hki
        rcases List.mem_append.mp hki with hki | hki
        · exact h.waits_mono hs hki
        · rw [List.mem_singleton.mp hki]
          exact ⟨p, hn, hl, rfl, hu', hk⟩
      · exact h.waits_mono hs (ho i hi ▸ hki)
    · by_cases hi : i = p.context
      · subst hi
        rw [hp]
        refine List.pairwise_append.mpr ⟨h.increasing _, List.pairwise_singleton _ _, fun a ha b hb => ?_⟩
        rw [List.mem_singleton.mp hb]
        exact h.parked_lt ha
      · rw [ho i hi]
        exact h.increasing i
    · rw [hq]
      by_cases hi : i = p.context
      · subst hi
        rw [hp] at hki
        rcases List.mem_append.mp hki with hki | hki
        · exact h.apart _ k hki w
        · rw [List.mem_singleton.mp hki]
          exact fun hw => lt_irrefl _ (h.queued_lt hw)
      · exact h.apart i k (ho i hi ▸ hki) w
  | queued p hn hf q hh hq ho hp =>
    have hroute : s'.Routed v q p := by
      refine ⟨fun hb => ?_, ?_, ?_, ?_, ?_⟩
      · unfold Dispatch.Home at hh
        rwa [if_pos hb.1] at hh
      all_goals
        intro hf'
        rw [hf] at hf'
        cases hf'
    refine ⟨fun w k hk => ?_, fun i k hk => h.waits_mono hs (hp i ▸ hk), fun i => hp i ▸ h.increasing i, fun i k hk w
        => ?_,
      hnamed, fun w => ?_⟩
    · by_cases hw : w = q
      · subst hw
        rw [hq] at hk
        rcases List.mem_append.mp hk with hk | hk
        · exact h.routed_mono hs hk
        · rw [List.mem_singleton.mp hk]
          exact ⟨p, hn, hroute⟩
      · exact h.routed_mono hs (ho w hw ▸ hk)
    · rw [hp] at hk
      by_cases hw : w = q
      · subst hw
        rw [hq]
        simp only [List.mem_append, List.mem_singleton, not_or]
        exact ⟨h.apart i k hk w, (h.parked_lt hk).ne⟩
      · exact ho w hw ▸ h.apart i k hk w
    · by_cases hw : w = q
      · subst hw
        exact hq ▸ h.inOrder_append (horder w)
      · exact ho w hw ▸ horder w
  | flushed p hn hf q hu' hk hr hqe hd hr2 h1 h0 hst hq ho hp hpo =>
    have hname : s'.Named v p.fragmentKey q := hk ▸ hqe ▸ hnamed p.context hr
    have hroute : s'.Routed v q p := by
      refine ⟨fun hb => ?_, fun _ => hu', fun _ => hk, fun _ => ⟨by omega, hqe⟩, fun _ => hname⟩
      have hh := h1 (hb.2 hf)
      unfold Dispatch.Home at hh
      rwa [if_pos hb.1] at hh
    -- the parked packets have the key of the context, so they are routed with the new one
    have hlater : ∀ k ∈ s.parked p.context, ∃ r, s'.parsed v k = some r ∧ r.Later ∧ s'.Routed v q r := by
      intro k hkp
      obtain ⟨r, hw⟩ := h.waits_mono hs hkp
      have hkey : r.fragmentKey = p.fragmentKey := hw.key.symm.trans hk
      refine ⟨r, hw.parsed, hw.later, fun hb => ?_, fun _ => hw.context ▸ hu', fun _ => ?_, fun _ => ?_, fun _ =>
          hkey ▸ hname⟩
      · have := hb.2 hw.later.1
        rw [hw.later.2] at this
        cases this
      · rw [hw.context, hw.key]
      · rw [hw.context]
        exact ⟨by omega, hqe⟩
    refine ⟨fun w k hkw => ?_, fun i k hki => ?_, fun i => ?_, fun i k hki w => ?_, hnamed, fun w => ?_⟩
    · by_cases hw : w = q
      · subst hw
        rw [hq] at hkw
        rcases List.mem_append.mp hkw with hkw | hkw
        · exact h.routed_mono hs hkw
        · rcases List.mem_cons.mp hkw with rfl | hkw
          · exact ⟨p, hn, hroute⟩
          · obtain ⟨r, hr, -, hrr⟩ := hlater k hkw
            exact ⟨r, hr, hrr⟩
      · exact h.routed_mono hs (ho w hw ▸ hkw)
    · by_cases hi : i = p.context
      · subst hi
        rw [hp] at hki
        exact absurd hki List.not_mem_nil
      · exact h.waits_mono hs (hpo i hi ▸ hki)
    · by_cases hi : i = p.context
      · subst hi
        rw [hp]
        exact .nil
      · exact hpo i hi ▸ h.increasing i
    · by_cases hi : i = p.context
      · subst hi
        rw [hp] at hki
        exact absurd hki List.not_mem_nil
      · rw [hpo i hi] at hki
        by_cases hw : w = q
        · subst hw
          rw [hq]
          simp only [List.mem_append, List.mem_cons, not_or]
          exact ⟨h.apart i k hki w, (h.parked_lt hki).ne, fun hkp => hi (h.context_unique hki hkp)⟩
        · exact ho w hw ▸ h.apart i k hki w
    · by_cases hw : w = q
      · subst hw
        rw [hq]
        refine h.inOrder_flush (horder w) fun a b ha hb p' q' hp' hq' hR => ?_
        -- the parked packets are later fragments
        obtain ⟨r, hr', hrl, -⟩ := hlater b hb
        obtain rfl := Option.some.inj (hr'.symm.trans hq')
        have := hR.2.2 hrl.1
        rw [hrl.2] at this
        cases this
      · exact ho w hw ▸ horder w

end Sorted

end Dispatching

end Tayga
