import Tayga.Dispatch
import Mathlib.Tactic.Linarith

/-!
# The places of a slot

A slot of the dispatcher is on the free stack, on the ring of a worker, in the list of a fragment context, or with a
worker.  The abstract dispatcher is the list of the slots in each place; `Dispatch.Holds d c` says that the arrays,
counters and links of `d` hold exactly these lists, and every operation on the arrays is the matching operation on
the lists.
-/

namespace Tayga

open SlotPool

/-- Where a slot can be. -/
inductive Place where
  | free
  | queue (worker : Nat)
  | held (i : Nat)
  | taken
deriving Repr, DecidableEq

/-- The places there are. -/
def places : Finset Place :=
  insert .free (insert .taken
    ((Finset.range expWorkers).image .queue ∪ (Finset.range dispatchFragments).image .held))

@[simp] theorem free_mem_places : Place.free ∈ places := by simp [places]

@[simp] theorem taken_mem_places : Place.taken ∈ places := by simp [places]

@[simp] theorem queue_mem_places {w : Nat} : Place.queue w ∈ places ↔ w < expWorkers := by simp [places]

@[simp] theorem held_mem_places {i : Nat} : Place.held i ∈ places ↔ i < dispatchFragments := by simp [places]

/-- A sum over the places. -/
private theorem sum_places (f : Place → Nat) :
    ∑ p ∈ places, f p = f .free + f .taken + ∑ w ∈ Finset.range expWorkers, f (.queue w) +
      ∑ i ∈ Finset.range dispatchFragments, f (.held i) := by
  have hd : Disjoint ((Finset.range expWorkers).image Place.queue) ((Finset.range dispatchFragments).image
      Place.held) := by
    rw [Finset.disjoint_left]
    intro p hp hq
    obtain ⟨w, -, rfl⟩ := Finset.mem_image.mp hp
    obtain ⟨i, -, hi⟩ := Finset.mem_image.mp hq
    cases hi
  have hq : Set.InjOn Place.queue (Finset.range expWorkers) := fun a _ b _ hab => Place.queue.inj hab
  have hh : Set.InjOn Place.held (Finset.range dispatchFragments) := fun a _ b _ hab => Place.held.inj hab
  rw [places, Finset.sum_insert (by simp), Finset.sum_insert (by simp), Finset.sum_union hd, Finset.sum_image hq,
    Finset.sum_image hh]
  omega

/-- Every slot is in exactly one place. -/
structure Whole (c : Place → List Nat) : Prop where
  slots : Bins places c = Multiset.range dispatchFrames
  outside : ∀ p ∉ places, c p = []

namespace Whole

variable {c c' : Place → List Nat}

theorem mem_places (h : Whole c) {p : Place} {x : Nat} (hx : x ∈ c p) : p ∈ places := by
  by_contra hp
  rw [h.outside p hp] at hx
  exact List.not_mem_nil hx

private theorem bins_nodup (h : Whole c) : (Bins places c).Nodup := h.slots ▸ Multiset.nodup_range _

theorem nodup (h : Whole c) (p : Place) : (c p).Nodup := by
  by_cases hp : p ∈ places
  · exact Bins.nodup h.bins_nodup hp
  · rw [h.outside p hp]
    exact List.nodup_nil

theorem lt (h : Whole c) {p : Place} {x : Nat} (hx : x ∈ c p) : x < dispatchFrames := by
  have : x ∈ Bins places c := Bins.mem.mpr ⟨p, h.mem_places hx, hx⟩
  rwa [h.slots, Multiset.mem_range] at this

theorem eq_of_mem (h : Whole c) {p q : Place} {x : Nat} (hp : x ∈ c p) (hq : x ∈ c q) : p = q :=
  Bins.eq_of_mem h.bins_nodup (h.mem_places hp) (h.mem_places hq) hp hq

theorem exists_place (h : Whole c) {x : Nat} (hx : x < dispatchFrames) : ∃ p, x ∈ c p := by
  have : x ∈ Bins places c := by rwa [h.slots, Multiset.mem_range]
  obtain ⟨p, -, hp⟩ := Bins.mem.mp this
  exact ⟨p, hp⟩

/-- The sizes add up to the number of slots. -/
theorem total (h : Whole c) :
    (c .free).length + (c .taken).length + ∑ w ∈ Finset.range expWorkers, (c (.queue w)).length +
      ∑ i ∈ Finset.range dispatchFragments, (c (.held i)).length = dispatchFrames := by
  rw [← sum_places fun p => (c p).length, ← Bins.card, h.slots, Multiset.card_range]

theorem length_le (h : Whole c) (p : Place) : (c p).length ≤ dispatchFrames := by
  by_cases hp : p ∈ places
  · have := Multiset.card_le_card (Bins.le hp c)
    rwa [h.slots, Multiset.card_range, Multiset.coe_card] at this
  · rw [h.outside p hp]
    exact Nat.zero_le _

/-- Two places together hold at most all the slots. -/
theorem add_length_le (h : Whole c) {p q : Place} (hpq : p ≠ q) : (c p).length + (c q).length ≤ dispatchFrames := by
  by_cases hp : p ∈ places
  · by_cases hq : q ∈ places
    · have := Multiset.card_le_card (Bins.add_le hp hq hpq c)
      rwa [h.slots, Multiset.card_range, Multiset.card_add, Multiset.coe_card, Multiset.coe_card] at this
    · rw [h.outside q hq]
      exact h.length_le p
  · rw [h.outside p hp, List.length_nil, Nat.zero_add]
    exact h.length_le q

/-- While a slot is elsewhere, a place is not full. -/
theorem length_lt (h : Whole c) {p q : Place} (hpq : p ≠ q) {x : Nat} (hx : x ∈ c q) :
    (c p).length < dispatchFrames := by
  have := h.add_length_le hpq
  have := List.length_pos_of_mem hx
  omega

/-- Slots move from one place to another. -/
theorem move (h : Whole c) {p q : Place} (hp : p ∈ places) (hq : q ∈ places) (hpq : p ≠ q) {m : List Nat}
    (hcp : (c p).Perm (c' p ++ m)) (hcq : (c' q).Perm (c q ++ m)) (ho : ∀ r, r ≠ p → r ≠ q → c' r = c r) : Whole c'
        where
  slots := (Bins.move hp hq hpq hcp hcq fun r _ => ho r).trans h.slots
  outside r hr := by
    rw [ho r (fun e => hr (e ▸ hp)) (fun e => hr (e ▸ hq))]
    exact h.outside r hr

end Whole

/-! ### The arrays hold the lists -/

/-- The list of a fragment context, through its links. -/
structure FragmentEntry.Parks (next : Nat → Option Nat) (e : FragmentEntry) (l : List Nat) : Prop where
  linked : e.used → Linked next e.first l
  last : e.used → e.last = l.getLast?
  count : e.count = l.length
  unused : e.used = false → l = []

theorem FragmentEntry.Parks.congr {next next' : Nat → Option Nat} {e : FragmentEntry} {l : List Nat}
    (h : e.Parks next l)
    (hn : ∀ a ∈ l, next' a = next a) : e.Parks next' l :=
  { h with linked := fun hu => (h.linked hu).congr hn }

/-- The arrays, counters and links of the dispatcher hold these lists of slots. -/
structure Dispatch.Holds (d : Dispatch) (c : Place → List Nat) : Prop where
  free : stack d.freeSlots d.freeCount = c .free
  queue : ∀ w, ring dispatchFrames (d.queues w) (d.head w).toNat (d.count w) = c (.queue w)
  tail : ∀ w, d.tail w = d.head w + BitVec.ofNat 32 (d.count w)
  held : ∀ i, (d.fragments i).Parks d.next (c (.held i))

namespace Dispatch.Holds

variable {d : Dispatch} {c : Place → List Nat}

theorem freeCount_eq (h : Holds d c) : d.freeCount = (c .free).length := by
  rw [← h.free, length_stack]

theorem count_eq (h : Holds d c) (w : Nat) : d.count w = (c (.queue w)).length := by
  rw [← h.queue, length_ring]

protected theorem drop (h : Holds d c) (bytes : Nat) : Holds (d.drop bytes) c := { h with }

protected theorem freeLocked (h : Holds d c) (slot : Nat) :
    Holds (d.freeLocked slot) (Function.update c .free (c .free ++ [slot])) where
  free := by
    rw [Function.update_self, ← h.free]
    exact stack_push _ _ _
  queue w := h.queue w
  tail := h.tail
  held i := h.held i

/-- The cell the tail counter names is the one behind the last slot of the ring. -/
private theorem tail_cell {head tail : BitVec 32} {n : Nat} (h : tail = head + BitVec.ofNat 32 n) :
    tail.toNat % dispatchFrames = (head.toNat + n) % dispatchFrames := by
  subst h
  simp only [BitVec.toNat_add, BitVec.toNat_ofNat, dispatchFrames]
  omega

protected theorem queueLocked (h : Holds d c) {q : Nat} (hq : (c (.queue q)).length < dispatchFrames) (slot : Nat) :
    Holds (d.queueLocked slot q) (Function.update c (.queue q) (c (.queue q) ++ [slot])) where
  free := h.free
  queue w := by
    by_cases hw : w = q
    · subst hw
      simp only [queueLocked, Function.update_self]
      rw [tail_cell (h.tail w), ring_push (by rw [h.count_eq]; exact hq), h.queue]
    · have hne : Place.queue w ≠ Place.queue q := fun e => hw (Place.queue.inj e)
      simp only [queueLocked, Function.update_of_ne hw, Function.update_of_ne hne]
      exact h.queue w
  tail w := by
    by_cases hw : w = q
    · subst hw
      simp only [queueLocked, Function.update_self]
      rw [h.tail w, BitVec.add_assoc]
      congr 1
      apply BitVec.eq_of_toNat_eq
      simp
    · simp only [queueLocked, Function.update_of_ne hw]
      exact h.tail w
  held i := h.held i

/-- The top of the free stack is given a packet; its link is cleared. -/
protected theorem store (h : Holds d c) (hw : Whole c) {free : List Nat} {slot : Nat} (hf : c .free = free ++ [slot])
    (vnetHdrSz : Nat) (pool : PacketFramePool) (token : PacketFrameToken) (buffer : List Byte) :
    Holds (d.store vnetHdrSz slot pool token buffer) (Function.update c .free free) where
  free := by
    have hc : d.freeCount = free.length + 1 := by rw [h.freeCount_eq, hf, List.length_append, List.length_singleton]
    have hs := h.free
    rw [hc, stack_succ, hf] at hs
    have := (List.append_inj hs (length_stack _ _)).1
    simpa only [Dispatch.store, Function.update_self, hc, Nat.add_sub_cancel] using this
  queue w := h.queue w
  tail := h.tail
  held i := by
    refine (h.held i).congr fun a ha => Function.update_of_ne ?_ _ _
    rintro rfl
    exact Place.noConfusion (hw.eq_of_mem ha (hf ▸ List.mem_append_right _ (List.mem_singleton_self _)))

/-- One context gets a new entry, a new list and new links; the links of the other lists stay. -/
protected theorem setFragment (h : Holds d c) {i : Nat} {e : FragmentEntry} {l : List Nat} {n : Nat → Option Nat}
    (hl : e.Parks n l) (hn : ∀ j, j ≠ i → ∀ a ∈ c (.held j), n a = d.next a) :
    Holds { d with
      next := n
      fragments := Function.update d.fragments i e } (Function.update c (.held i) l) where
  free := h.free
  queue := h.queue
  tail := h.tail
  held j := by
    by_cases hji : j = i
    · subst hji
      simp only [Function.update_self]
      exact hl
    · have hne : Place.held j ≠ Place.held i := fun e => hji (Place.held.inj e)
      simp only [Function.update_of_ne hji, Function.update_of_ne hne]
      exact (h.held j).congr (hn j hji)

/-- A slot in no list, with its link cleared, goes to the end of the list of a context. -/
protected theorem hold (h : Holds d c) {i x : Nat} (hu : (d.fragments i).used) (hnd : (c (.held i)).Nodup)
    (hdisj : ∀ j, ∀ a ∈ c (.held j), a ∈ c (.held i) → j = i) (hs : x ∉ c (.held i)) (hn : d.next x = none) :
    Holds (d.hold i x) (Function.update c (.held i) (c (.held i) ++ [x])) := by
  have hp := h.held i
  have hnone : Function.update d.next x none = d.next := Function.update_eq_self_iff.mpr hn.symm
  rcases List.eq_nil_or_concat' (c (.held i)) with hl | ⟨l, b, hl⟩
  · have hlast : (d.fragments i).last = none := by rw [hp.last hu, hl]; rfl
    have := h.setFragment (i := i) (n := d.next) (l := [x]) (e := { d.fragments i with
      first := some x
      last := some x
      count := (d.fragments i).count + 1 })
      ⟨fun _ => .cons (hn ▸ .nil), fun _ => rfl, by simp [hp.count, hl], fun hf => by simp [hu] at hf⟩ fun _ _ _ _ =>
          rfl
    rw [hl]
    unfold Dispatch.hold
    simp only [hlast]
    exact { this with }
  · have hne : c (.held i) ≠ [] := by rw [hl]; simp
    have hlast : (d.fragments i).last = some ((c (.held i)).getLast hne) := by
      rw [hp.last hu, List.getLast?_eq_some_getLast hne]
    have hlink := (hp.linked hu).snoc hne hnd hs
    rw [hnone] at hlink
    have hlinks : ∀ j, j ≠ i → ∀ a ∈ c (.held j),
        Function.update d.next ((c (.held i)).getLast hne) (some x) a = d.next a := by
      intro j hj a ha
      refine Function.update_of_ne ?_ _ _
      rintro rfl
      exact hj (hdisj j _ ha (List.getLast_mem hne))
    have := h.setFragment (i := i) (l := c (.held i) ++ [x])
      (n := Function.update d.next ((c (.held i)).getLast hne) (some x)) (e := { d.fragments i with
      first := (d.fragments i).first
      last := some x
      count := (d.fragments i).count + 1 })
      ⟨fun _ => hlink, fun _ => by simp, by simp [hp.count], fun hf => by simp [hu] at hf⟩ hlinks
    unfold Dispatch.hold
    simp only [hlast]
    exact { this with }

/-- The loop over the parked slots appends them to the ring in their order. -/
protected theorem queueHeld {q : Nat} {l : List Nat} {fuel : Nat} (hf : l.length ≤ fuel) {held : Option Nat}
    (hl : Linked d.next held l) (h : Holds d c) (hq : (c (.queue q)).length + l.length ≤ dispatchFrames) :
    Holds (d.queueHeld q fuel held) (Function.update c (.queue q) (c (.queue q) ++ l)) := by
  induction l generalizing fuel held d c with
  | nil =>
    cases hl
    rw [List.append_nil, Function.update_eq_self]
    cases fuel <;> exact h
  | cons a l ih =>
    cases hl with
    | cons hl =>
      cases fuel with
      | zero => simp at hf
      | succ fuel =>
        rw [List.length_cons] at hf hq
        have := ih (d := d.queueLocked a q) (Nat.le_of_succ_le_succ hf) hl (h.queueLocked (by omega) a)
          (by simp only [Function.update_self, List.length_append, List.length_singleton]; omega)
        simp only [Function.update_self, Function.update_idem, List.append_assoc, List.singleton_append] at this
        exact this

/-- The loop over the parked slots of an expired context puts them on the free stack. -/
protected theorem dropHeld {l : List Nat} {fuel : Nat} (hf : l.length ≤ fuel) {held : Option Nat}
    (hl : Linked d.next held l) (h : Holds d c) :
    Holds (d.dropHeld fuel held) (Function.update c .free (c .free ++ l)) := by
  induction l generalizing fuel held d c with
  | nil =>
    cases hl
    rw [List.append_nil, Function.update_eq_self]
    cases fuel <;> exact h
  | cons a l ih =>
    cases hl with
    | cons hl =>
      cases fuel with
      | zero => simp at hf
      | succ fuel =>
        rw [List.length_cons] at hf
        have := ih (d := (d.drop (d.buffer a).length).freeLocked a)
          (Nat.le_of_succ_le_succ hf) hl ((h.drop _).freeLocked a)
        simp only [Function.update_self, Function.update_idem, List.append_assoc, List.singleton_append] at this
        exact this

end Dispatch.Holds

/-! ### The loops change nothing else -/

/-- Queueing the parked slots touches only the rings. -/
theorem Dispatch.queueHeld_frame (d : Dispatch) (q fuel : Nat) (held : Option Nat) :
    ∃ queues tail count, d.queueHeld q fuel held = { d with
      queues := queues
      tail := tail
      count := count } := by
  induction fuel generalizing d held with
  | zero => exact ⟨_, _, _, rfl⟩
  | succ fuel ih =>
    cases held with
    | none => exact ⟨_, _, _, rfl⟩
    | some a =>
      obtain ⟨queues, tail, count, h⟩ := ih (d.queueLocked a q) (d.next a)
      exact ⟨queues, tail, count, h⟩

/-- Dropping the parked slots touches only the free stack, the frames and the count of dropped packets. -/
theorem Dispatch.dropHeld_frame {d : Dispatch} {l : List Nat} {fuel : Nat} (hf : l.length ≤ fuel) {held : Option Nat}
    (hl : Linked d.next held l) :
    ∃ pool freeSlots drops, drops.length = d.drops.length + l.length ∧ d.dropHeld fuel held = { d with
      pool := pool
      freeSlots := freeSlots
      freeCount := d.freeCount + l.length
      drops := drops } := by
  induction l generalizing fuel held d with
  | nil =>
    cases hl
    cases fuel <;> exact ⟨_, _, _, rfl, rfl⟩
  | cons a l ih =>
    cases hl with
    | cons hl =>
      cases fuel with
      | zero => simp at hf
      | succ fuel =>
        rw [List.length_cons] at hf
        obtain ⟨pool, freeSlots, drops, hd, h⟩ := ih (d := (d.drop (d.buffer a).length).freeLocked a)
          (Nat.le_of_succ_le_succ hf) hl
        refine ⟨pool, freeSlots, drops, ?_, ?_⟩
        · rw [hd]
          simp only [Dispatch.freeLocked, Dispatch.drop, List.length_append, List.length_cons, List.length_nil]
          omega
        · rw [Dispatch.dropHeld, h, List.length_cons, Nat.add_comm l.length, ← Nat.add_assoc]
          rfl

end Tayga
