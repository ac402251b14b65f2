import Tayga.Stats

/-!
# What the threads keep

The value in a slot is always the sum of the first increments of its thread (`Published`), and an acknowledged request
number promises those that were due when it was drawn (`StatsInv`).  The state only evolves (`Evolves`), and no thread
touches what is another's (`Own`).
-/

namespace Tayga

open Program

variable {workers : Nat} {s s' s'' : Stats} {t u : ThreadId} {k n : Nat} {c : Counter}

/-! ### Sums of increments -/

/-- What increments add to a counter. -/
def total (c : Counter) (l : List (Counter × BitVec 64)) : BitVec 64 := (l.map fun i => if i.1 = c then i.2 else 0).sum

private theorem total_append_singleton (l : List (Counter × BitVec 64)) (d : Counter) (v : BitVec 64) :
    total c (l ++ [(d, v)]) = if d = c then total c l + v else total c l := by
  unfold total
  rw [List.map_append, List.sum_append]
  by_cases h : d = c <;> simp [h]

/-- The published value of a counter covers the first `n` increments of the thread, and maybe some more. -/
def Published (s : Stats) (slot : Nat) (c : Counter) (n : Nat) : Prop :=
  ∃ m, n ≤ m ∧ m ≤ (s.made slot).length ∧ s.pub slot c = total c ((s.made slot).take m)

theorem Published.mono {m : Nat} (h : Published s k c n) (hm : m ≤ n) : Published s k c m := by
  obtain ⟨l, hl, hle, he⟩ := h
  exact ⟨l, Nat.le_trans hm hl, hle, he⟩

/-- Further increments leave a published value what it is. -/
theorem Published.of_prefix (h : Published s k c n) (hm : s.made k <+: s'.made k) (hp : s'.pub k c = s.pub k c) :
    Published s' k c n := by
  obtain ⟨m, hn, hle, he⟩ := h
  obtain ⟨l, hl⟩ := hm
  refine ⟨m, hn, ?_, ?_⟩
  · rw [← hl, List.length_append]
    omega
  · rw [hp, he, ← hl, List.take_append_of_le_length hle]

/-! ### The invariant -/

/-- What holds between any two operations. -/
structure StatsInv (workers : Nat) (s : Stats) : Prop where
  priv : ∀ k c, s.priv (slotOwner k) c = total c (s.made k)
  pub : ∀ k c, Published s k c 0
  settled : ∀ k c, s.registered k = false → Published s k c (s.marks.settled k)
  acked : ∀ k c r, r ≤ s.syncAck k → Published s k c (s.marks.asked r k)
  ack_le : ∀ k, s.syncAck k ≤ s.syncReq
  asked_le : ∀ k r, r ≤ s.syncReq → s.marks.asked r k ≤ (s.made k).length
  apart : ∀ k, s.marks.joined k = false → s.registered k = false ∧ s.marks.settled k = 0 ∧ (k ≠ 0 → s.made k = [])
  joined_le : ∀ k, s.marks.joined k = true → k ≤ min workers 64

/-- The counters of a thread that has exited or stopped are in its slot. -/
theorem StatsInv.published_due (h : StatsInv workers s) (hr : s.registered k = false) (c : Counter) :
    Published s k c (s.due k) := by
  have hd : s.due k = s.marks.settled k := by
    unfold Stats.due
    rw [hr]
    rfl
  rw [hd]
  exact h.settled k c hr

private theorem StatsInv.due_le (h : StatsInv workers s) (k : Nat) : s.due k ≤ (s.made k).length := by
  unfold Stats.due
  split
  · exact Nat.le_refl _
  · rename_i hr
    obtain ⟨m, hn, hle, -⟩ := h.settled k .rxPktsV4 (by simpa using hr)
    omega

/-- How the state may go on. -/
structure Evolves (s s' : Stats) : Prop where
  made : ∀ k, s.made k <+: s'.made k
  pub : ∀ k c n, Published s k c n → Published s' k c n
  req : s.syncReq ≤ s'.syncReq
  asked : ∀ r ≤ s.syncReq, s'.marks.asked r = s.marks.asked r
  joined : ∀ k, s.marks.joined k = true → s'.marks.joined k = true
  gone : ∀ k, s.marks.joined k = true → s.registered k = false → s'.registered k = false
  due : ∀ k, s.due k ≤ s'.due k

theorem Evolves.refl (s : Stats) : Evolves s s :=
  ⟨fun _ => List.prefix_rfl, fun _ _ _ h => h, Nat.le_refl _, fun _ _ => rfl, fun _ h => h, fun _ _ h => h,
    fun _ => Nat.le_refl _⟩

theorem Evolves.trans (h : Evolves s s') (h' : Evolves s' s'') : Evolves s s'' where
  made k := (h.made k).trans (h'.made k)
  pub k c n hp := h'.pub k c n (h.pub k c n hp)
  req := Nat.le_trans h.req h'.req
  asked r hr := (h'.asked r (Nat.le_trans hr h.req)).trans (h.asked r hr)
  joined k hk := h'.joined k (h.joined k hk)
  gone k hk hr := h'.gone k (h.joined k hk) (h.gone k hk hr)
  due k := Nat.le_trans (h.due k) (h'.due k)

/-- What is a thread's own is the same. -/
structure Own (t : ThreadId) (s s' : Stats) : Prop where
  priv : s'.priv t = s.priv t
  begun : s'.marks.begun t = s.marks.begun t
  issued : s'.marks.issued t = s.marks.issued t
  made : ∀ k, t = slotOwner k → s'.made k = s.made k
  pub : ∀ k, t = slotOwner k → s'.pub k = s.pub k
  ack : ∀ k, t = slotOwner k → s'.syncAck k = s.syncAck k
  joined : ∀ k, t = slotOwner k → s'.marks.joined k = s.marks.joined k
  registered : ∀ k, t = slotOwner k → s'.registered k = s.registered k

theorem Own.refl (t : ThreadId) (s : Stats) : Own t s s := by
  constructor <;> intros <;> rfl

theorem Own.trans (h : Own t s s') (h' : Own t s' s'') : Own t s s'' where
  priv := h'.priv.trans h.priv
  begun := h'.begun.trans h.begun
  issued := h'.issued.trans h.issued
  made k hk := (h'.made k hk).trans (h.made k hk)
  pub k hk := (h'.pub k hk).trans (h.pub k hk)
  ack k hk := (h'.ack k hk).trans (h.ack k hk)
  joined k hk := (h'.joined k hk).trans (h.joined k hk)
  registered k hk := (h'.registered k hk).trans (h.registered k hk)

/-- What a thread relies on: the others leave alone what is its own. -/
def Rely (t : ThreadId) (s s' : Stats) : Prop := Evolves s s' ∧ Own t s s'

/-- What a thread guarantees: it leaves alone what is another's. -/
def Guarantee (t : ThreadId) (s s' : Stats) : Prop := Evolves s s' ∧ ∀ u, u ≠ t → Own u s s'

theorem Guarantee.refl (t : ThreadId) (s : Stats) : Guarantee t s s := ⟨.refl s, fun u _ => .refl u s⟩

/-- The side of a thread. -/
def statsSide (workers : Nat) (t : ThreadId) : Side StatsOp StatsOp.Ans Stats where
  env := perform t
  inv := StatsInv workers
  rely := Rely t
  guar := Guarantee t
  rely_refl s := ⟨.refl s, .refl t s⟩
  rely_trans h h' := ⟨h.1.trans h'.1, h.2.trans h'.2⟩

/-! ### Operations -/

theorem slotOwner_inj {k j : Nat} (h : slotOwner k = slotOwner j) : k = j := by
  cases k <;> cases j <;> simp_all [slotOwner]

theorem slotOwner_of_slot (h : t.slot = some k) : t = slotOwner k := by
  cases t with
  | main =>
    have h' : some 0 = some k := h
    obtain rfl := Option.some.inj h'
    rfl
  | worker idx =>
    have h' : (if idx < statsMaxSlots - 1 then some (idx + 1) else none) = some k := h
    split at h'
    · obtain rfl := Option.some.inj h'
      rfl
    · cases h'
  | other n =>
    have h' : none = some k := h
    cases h'

/-- The invariant and the guarantee of one operation. -/
structure Keeps (workers : Nat) (t : ThreadId) (s s' : Stats) : Prop where
  inv : StatsInv workers s'
  guar : Guarantee t s s'

theorem Keeps.refl (h : StatsInv workers s) (t : ThreadId) : Keeps workers t s s := ⟨h, .refl t s⟩

/-- A thread publishes one of its counters. -/
theorem keeps_publish (h : StatsInv workers s) (hk : t = slotOwner k) (c : Counter) :
    Keeps workers t s (perform t (.publish k c) s).2 ∧
      Published (perform t (.publish k c) s).2 k c ((perform t (.publish k c) s).2.made k).length := by
  have hpub : ∀ j d n, Published s j d n → Published (perform t (.publish k c) s).2 j d n := by
    intro j d n hp
    by_cases hj : j = k ∧ d = c
    · obtain ⟨rfl, rfl⟩ := hj
      obtain ⟨m, hn, hle, -⟩ := hp
      refine ⟨(s.made j).length, Nat.le_trans hn hle, Nat.le_refl _, ?_⟩
      have hv : (perform t (.publish j d) s).2.pub j d = s.priv t d := by simp [perform]
      rw [hv, hk, h.priv]
      exact congrArg _ (List.take_length).symm
    · refine hp.of_prefix List.prefix_rfl ?_
      rw [not_and_or] at hj
      rcases hj with hj | hj
      · simp [perform, hj]
      · by_cases hjk : j = k
        · subst hjk
          simp [perform, hj]
        · simp [perform, hjk]
  refine ⟨⟨?_, ?_, fun u hu => ?_⟩, ?_⟩
  · exact ⟨h.priv, fun j d => hpub _ _ _ (h.pub j d), fun j d hr => hpub _ _ _ (h.settled j d hr),
      fun j d r hr => hpub _ _ _ (h.acked j d r hr), h.ack_le, h.asked_le, h.apart, h.joined_le⟩
  · exact ⟨fun _ => List.prefix_rfl, hpub, Nat.le_refl _, fun _ _ => rfl, fun _ h => h, fun _ _ h => h,
      fun _ => Nat.le_refl _⟩
  · refine ⟨rfl, rfl, rfl, fun _ _ => rfl, fun j hj => ?_, fun _ _ => rfl, fun _ _ => rfl, fun _ _ => rfl⟩
    have hjk : j ≠ k := by
      rintro rfl
      exact hu (hj.trans hk.symm)
    simp [perform, hjk]
  · refine ⟨(s.made k).length, Nat.le_refl _, Nat.le_refl _, ?_⟩
    have hv : (perform t (.publish k c) s).2.pub k c = s.priv t c := by simp [perform]
    rw [hv, hk, h.priv]
    exact congrArg _ (List.take_length).symm

/-- A thread acknowledges a request number that is not new, when its slot has all its increments. -/
theorem keeps_storeAck (h : StatsInv workers s) (hk : t = slotOwner k) {req : Nat} (hreq : req ≤ s.syncReq)
    (hpub : ∀ c, Published s k c (s.made k).length) : Keeps workers t s (perform t (.storeAck k req) s).2 := by
  refine ⟨⟨h.priv, h.pub, h.settled, fun j c r hr => ?_, fun j => ?_, h.asked_le, h.apart, h.joined_le⟩,
    ⟨fun _ => List.prefix_rfl, fun _ _ _ h => h, Nat.le_refl _, fun _ _ => rfl, fun _ h => h, fun _ _ h => h,
      fun _ => Nat.le_refl _⟩, fun u hu => ?_⟩
  · by_cases hj : j = k
    · subst hj
      have hr' : r ≤ req := by simpa [perform] using hr
      exact (hpub c).mono (h.asked_le j r (Nat.le_trans hr' hreq))
    · exact h.acked j c r (by simpa [perform, hj] using hr)
  · by_cases hj : j = k
    · subst hj
      simpa [perform] using hreq
    · simpa [perform, hj] using h.ack_le j
  · refine ⟨rfl, rfl, rfl, fun _ _ => rfl, fun _ _ => rfl, fun j hj => ?_, fun _ _ => rfl, fun _ _ => rfl⟩
    have hjk : j ≠ k := by
      rintro rfl
      exact hu (hj.trans hk.symm)
    simp [perform, hjk]

/-- A thread draws a request number. -/
theorem keeps_nextReq (h : StatsInv workers s) (t : ThreadId) : Keeps workers t s (perform t .nextReq s).2 := by
  have hasked : ∀ r ≤ s.syncReq, (perform t .nextReq s).2.marks.asked r = s.marks.asked r := by
    intro r hr
    exact Function.update_of_ne (by omega) _ _
  refine ⟨⟨h.priv, h.pub, h.settled, fun j c r hr => ?_, fun j => Nat.le_succ_of_le (h.ack_le j), fun j r hr => ?_,
    h.apart, h.joined_le⟩, ⟨fun _ => List.prefix_rfl, fun _ _ _ h => h, Nat.le_succ _, hasked, fun _ h => h,
    fun _ _ h => h, fun _ => Nat.le_refl _⟩, fun u hu => ?_⟩
  · rw [hasked r (Nat.le_trans hr (h.ack_le j))]
    exact h.acked j c r hr
  · by_cases hr' : r ≤ s.syncReq
    · rw [hasked r hr']
      exact h.asked_le j r hr'
    · have hreq : (perform t .nextReq s).2.syncReq = s.syncReq + 1 := rfl
      obtain rfl : r = s.syncReq + 1 := by omega
      have hv : (perform t .nextReq s).2.marks.asked (s.syncReq + 1) = s.due := Function.update_self _ _ _
      rw [hv]
      exact h.due_le j
  · refine ⟨rfl, rfl, ?_, fun _ _ => rfl, fun _ _ => rfl, fun _ _ => rfl, fun _ _ => rfl, fun _ _ => rfl⟩
    exact Function.update_of_ne hu _ _

/-- A thread begins a call. -/
theorem keeps_begin (h : StatsInv workers s) (t : ThreadId) : Keeps workers t s (s.begin t) := by
  refine ⟨⟨h.priv, h.pub, h.settled, h.acked, h.ack_le, h.asked_le, h.apart, h.joined_le⟩,
    ⟨fun _ => List.prefix_rfl, fun _ _ _ h => h, Nat.le_refl _, fun _ _ => rfl, fun _ h => h, fun _ _ h => h,
      fun _ => Nat.le_refl _⟩, fun u hu => ?_⟩
  exact ⟨rfl, Function.update_of_ne hu _ _, Function.update_of_ne hu _ _, fun _ _ => rfl, fun _ _ => rfl, fun _ _ =>
      rfl,
    fun _ _ => rfl, fun _ _ => rfl⟩

private theorem made_count (s : Stats) (t : ThreadId) (c : Counter) (v : BitVec 64) (k : Nat) :
    (s.count t c v).made k = if t = slotOwner k then s.made k ++ [(c, v)] else s.made k := by
  by_cases h : t = slotOwner k
  · subst h
    simp [Stats.made, Stats.count]
  · simp [Stats.made, Stats.count, h, Ne.symm h]

/-- A thread counts. -/
theorem keeps_count (h : StatsInv workers s) (hl : s.live t = true) (c : Counter) (v : BitVec 64) :
    Keeps workers t s (s.count t c v) := by
  have hmade : ∀ k, s.made k <+: (s.count t c v).made k := by
    intro k
    rw [made_count]
    split
    · exact List.prefix_append _ _
    · exact List.prefix_rfl
  have hpub : ∀ k d n, Published s k d n → Published (s.count t c v) k d n := fun k d n hp => hp.of_prefix (hmade k) rfl
  have hother : ∀ u, u ≠ t → ∀ k, u = slotOwner k → (s.count t c v).made k = s.made k := by
    rintro u hu k rfl
    rw [made_count, if_neg (Ne.symm hu)]
  refine ⟨⟨fun k d => ?_, fun k d => hpub _ _ _ (h.pub k d), fun k d hr => hpub _ _ _ (h.settled k d hr),
    fun k d r hr => hpub _ _ _ (h.acked k d r hr), h.ack_le, fun k r hr => ?_, fun k hk => ?_, h.joined_le⟩,
    ⟨hmade, hpub, Nat.le_refl _, fun _ _ => rfl, fun _ h => h, fun _ _ h => h, fun k => ?_⟩, fun u hu => ?_⟩
  · rw [made_count]
    by_cases hk : t = slotOwner k
    · subst hk
      rw [if_pos rfl, total_append_singleton, ← h.priv, Stats.count]
      simp only [Function.update_self]
      by_cases hd : c = d
      · subst hd
        simp
      · simp [hd, Ne.symm hd]
    · rw [if_neg hk, ← h.priv, Stats.count]
      simp only [Function.update_of_ne (Ne.symm hk)]
  · exact Nat.le_trans (h.asked_le k r hr) (hmade k).length_le
  · obtain ⟨hr, hz, hm⟩ := h.apart k hk
    refine ⟨hr, hz, fun h0 => ?_⟩
    rw [made_count, if_neg, hm h0]
    -- a worker that has not registered does not count
    rintro rfl
    obtain ⟨idx, rfl⟩ : ∃ idx, k = idx + 1 := ⟨k - 1, by omega⟩
    have hr' : s.active (idx + 1) = false := hr
    have hl' : s.active (idx + 1) = true := hl
    rw [hr'] at hl'
    cases hl'
  · unfold Stats.due
    split
    · rename_i hr
      have hr' : (s.count t c v).registered k = true := hr
      rw [if_pos hr']
      exact (hmade k).length_le
    · rename_i hr
      have hr' : ¬(s.count t c v).registered k = true := hr
      rw [if_neg hr']
      exact Nat.le_refl _
  · exact ⟨Function.update_of_ne hu _ _, rfl, rfl, hother u hu, fun _ _ => rfl, fun _ _ => rfl, fun _ _ => rfl,
      fun _ _ => rfl⟩

/-- A thread clears its counters before it counts. -/
theorem keeps_clear (h : StatsInv workers s) (hm : ∀ k, t = slotOwner k → s.made k = []) :
    Keeps workers t s (perform t .clear s).2 := by
  refine ⟨⟨fun k c => ?_, h.pub, h.settled, h.acked, h.ack_le, h.asked_le, h.apart, h.joined_le⟩,
    ⟨fun _ => List.prefix_rfl, fun _ _ _ h => h, Nat.le_refl _, fun _ _ => rfl, fun _ h => h, fun _ _ h => h,
      fun _ => Nat.le_refl _⟩, fun u hu => ?_⟩
  · by_cases hk : t = slotOwner k
    · have hz : (perform t .clear s).2.made k = [] := hm k hk
      rw [hz, ← hk]
      simp [perform, total]
    · have hv : (perform t .clear s).2.priv (slotOwner k) = s.priv (slotOwner k) := Function.update_of_ne
          (Ne.symm hk) _ _
      rw [hv]
      exact h.priv k c
  · exact ⟨Function.update_of_ne hu _ _, rfl, rfl, fun _ _ => rfl, fun _ _ => rfl, fun _ _ => rfl, fun _ _ => rfl,
      fun _ _ => rfl⟩

/-- The state after the thread of the slot has registered, or has exited or stopped. -/
structure Enrolled (k : Nat) (b : Bool) (s s' : Stats) : Prop where
  pub : s'.pub = s.pub
  priv : s'.priv = s.priv
  req : s'.syncReq = s.syncReq
  ack : s'.syncAck = s.syncAck
  marks : s'.marks = s.enroll k b
  registered : ∀ j, s'.registered j = if j = k then b else s.registered j

theorem enrolled_storeActive (hk : k ≠ 0) (t : ThreadId) (b : Bool) (s : Stats) :
    Enrolled k b s (perform t (.storeActive k b) s).2 := by
  refine ⟨rfl, rfl, rfl, rfl, if_neg hk, fun j => ?_⟩
  by_cases hj : j = k
  · subst hj
    simp [Stats.registered, perform, hk]
  · simp [Stats.registered, perform, hj]

theorem enrolled_storeMain (t : ThreadId) (b : Bool) (s : Stats) : Enrolled 0 b s (perform t (.storeMain b) s).2 := by
  refine ⟨rfl, rfl, rfl, rfl, rfl, fun j => ?_⟩
  by_cases hj : j = 0
  · subst hj
    rfl
  · simp [Stats.registered, perform, hj]

theorem Enrolled.made {b : Bool} (he : Enrolled k b s s') (j : Nat) : s'.made j = s.made j := by
  unfold Stats.made
  rw [he.marks]
  cases b <;> rfl

theorem Enrolled.published {b : Bool} (he : Enrolled k b s s') {j : Nat} : Published s' j c n ↔ Published s j c n := by
  unfold Published
  rw [he.made, he.pub]

theorem Enrolled.own {b : Bool} (he : Enrolled k b s s') (hk : t = slotOwner k) (hu : u ≠ t) : Own u s s' := by
  have hne : ∀ j, u = slotOwner j → j ≠ k := by
    rintro j rfl rfl
    exact hu hk.symm
  have hm := he.marks
  refine ⟨by rw [he.priv], ?_, ?_, fun j _ => he.made j, fun j _ => by rw [he.pub], fun j _ => by rw [he.ack],
    fun j hj => ?_, fun j hj => ?_⟩
  · rw [hm]
    cases b <;> rfl
  · rw [hm]
    cases b <;> rfl
  · rw [hm]
    cases b with
    | true => exact Function.update_of_ne (hne j hj) _ _
    | false => rfl
  · rw [he.registered, if_neg (hne j hj)]

theorem Enrolled.asked {b : Bool} (he : Enrolled k b s s') : s'.marks.asked = s.marks.asked := by
  rw [he.marks]
  cases b <;> rfl

/-- What a change of registration does not touch is kept; the rest is about the slot whose registration changed. -/
private theorem Enrolled.keeps {b : Bool} (he : Enrolled k b s s') (h : StatsInv workers s) (hk : t = slotOwner k)
    (hsettled : ∀ j c, s'.registered j = false → Published s j c (s'.marks.settled j))
    (hapart : ∀ j, s'.marks.joined j = false →
      s'.registered j = false ∧ s'.marks.settled j = 0 ∧ (j ≠ 0 → s.made j = []))
    (hle : ∀ j, s'.marks.joined j = true → j ≤ min workers 64)
    (hjoined : ∀ j, s.marks.joined j = true → s'.marks.joined j = true)
    (hgone : ∀ j, s.marks.joined j = true → s.registered j = false → s'.registered j = false)
    (hdue : ∀ j, s.due j ≤ s'.due j) : Keeps workers t s s' := by
  have hpub : ∀ j c n, Published s j c n → Published s' j c n := fun j c n => he.published.2
  refine ⟨⟨fun j c => ?_, fun j c => hpub _ _ _ (h.pub j c), fun j c hr => hpub _ _ _ (hsettled j c hr),
    fun j c r hle => ?_, ?_, fun j r hle => ?_, fun j hj => ?_, hle⟩, ⟨fun j => ?_, hpub, ?_, fun r _ => ?_, hjoined,
    hgone, hdue⟩, fun u hu => he.own hk hu⟩
  · rw [he.priv, he.made]
    exact h.priv j c
  · rw [he.ack] at hle
    rw [he.asked]
    exact hpub _ _ _ (h.acked j c r hle)
  · rw [he.ack, he.req]
    exact h.ack_le
  · rw [he.req] at hle
    rw [he.asked, he.made]
    exact h.asked_le j r hle
  · rw [he.made]
    exact hapart j hj
  · rw [he.made]
  · rw [he.req]
  · rw [he.asked]

/-- A thread registers. -/
theorem Enrolled.register (he : Enrolled k true s s') (h : StatsInv workers s) (hk : t = slotOwner k)
    (hj : s.marks.joined k = false) (hw : k ≤ min workers 64) : Keeps workers t s s' := by
  have hm : s'.marks = { s.marks with joined := Function.update s.marks.joined k true } := he.marks
  have hjoined : ∀ j, j ≠ k → s'.marks.joined j = s.marks.joined j := fun j hne => by
    rw [hm]
    exact Function.update_of_ne hne _ _
  have hself : s'.marks.joined k = true := by
    rw [hm]
    exact Function.update_self _ _ _
  have hreg : ∀ j, j ≠ k → s'.registered j = s.registered j := fun j hne => by rw [he.registered, if_neg hne]
  refine he.keeps h hk (fun j c hr => ?_) (fun j hj' => ?_) (fun j hj' => ?_) (fun j hj' => ?_) (fun j hj' hr => ?_)
    fun j => ?_
  · have hne : j ≠ k := by
      rintro rfl
      rw [he.registered, if_pos rfl] at hr
      cases hr
    rw [hreg j hne] at hr
    rw [hm]
    exact h.settled j c hr
  · have hne : j ≠ k := by
      rintro rfl
      rw [hself] at hj'
      cases hj'
    rw [hjoined j hne] at hj'
    rw [hreg j hne, hm]
    exact h.apart j hj'
  · by_cases hne : j = k
    · rw [hne]
      exact hw
    · rw [hjoined j hne] at hj'
      exact h.joined_le j hj'
  · by_cases hne : j = k
    · rw [hne]
      exact hself
    · rw [hjoined j hne]
      exact hj'
  · have hne : j ≠ k := by
      rintro rfl
      rw [hj] at hj'
      cases hj'
    rw [hreg j hne]
    exact hr
  · by_cases hne : j = k
    · subst hne
      obtain ⟨hr, hz, -⟩ := h.apart j hj
      have hd : s.due j = 0 := by
        unfold Stats.due
        rw [hr]
        exact hz
      rw [hd]
      exact Nat.zero_le _
    · unfold Stats.due
      rw [hreg j hne, he.made, hm]

/-- A thread exits or stops, when its slot has all its increments. -/
theorem Enrolled.retire (he : Enrolled k false s s') (h : StatsInv workers s) (hk : t = slotOwner k)
    (hj : s.marks.joined k = true) (hall : ∀ c, Published s k c (s.made k).length) : Keeps workers t s s' := by
  have hm : s'.marks = { s.marks with settled := Function.update s.marks.settled k (s.made k).length } := he.marks
  have hreg : ∀ j, j ≠ k → s'.registered j = s.registered j := fun j hne => by rw [he.registered, if_neg hne]
  have hsettled : ∀ j, j ≠ k → s'.marks.settled j = s.marks.settled j := fun j hne => by
    rw [hm]
    exact Function.update_of_ne hne _ _
  have hself : s'.marks.settled k = (s.made k).length := by
    rw [hm]
    exact Function.update_self _ _ _
  have hjoined : s'.marks.joined = s.marks.joined := by rw [hm]
  refine he.keeps h hk (fun j c hr => ?_) (fun j hj' => ?_) (fun j hj' => ?_) (fun j hj' => ?_) (fun j _ hr => ?_)
    fun j => ?_
  · by_cases hne : j = k
    · subst hne
      rw [hself]
      exact hall c
    · rw [hreg j hne] at hr
      rw [hsettled j hne]
      exact h.settled j c hr
  · rw [hjoined] at hj'
    have hne : j ≠ k := by
      rintro rfl
      rw [hj] at hj'
      cases hj'
    rw [hreg j hne, hsettled j hne]
    exact h.apart j hj'
  · rw [hjoined] at hj'
    exact h.joined_le j hj'
  · rw [hjoined]
    exact hj'
  · rw [he.registered]
    split
    · rfl
    · exact hr
  · by_cases hne : j = k
    · subst hne
      have hd : s'.due j = (s.made j).length := by
        unfold Stats.due
        rw [he.registered, if_pos rfl, hself]
        rfl
      rw [hd]
      exact h.due_le j
    · unfold Stats.due
      rw [hreg j hne, he.made, hsettled j hne]

/-- The flag of slot 0 is not what registers the main thread. -/
theorem keeps_storeActive_zero (h : StatsInv workers s) (t : ThreadId) (b : Bool) :
    Keeps workers t s (perform t (.storeActive 0 b) s).2 := by
  have hreg : ∀ j, (perform t (.storeActive 0 b) s).2.registered j = s.registered j := by
    intro j
    by_cases hj : j = 0
    · subst hj
      rfl
    · simp [Stats.registered, perform, hj]
  have hm : (perform t (.storeActive 0 b) s).2.marks = s.marks := rfl
  have hmade : ∀ j, (perform t (.storeActive 0 b) s).2.made j = s.made j := fun _ => rfl
  refine ⟨⟨h.priv, h.pub, fun j c hr => h.settled j c ((hreg j).symm.trans hr), h.acked, h.ack_le, h.asked_le,
    fun j hj => ?_, h.joined_le⟩, ⟨fun _ => List.prefix_rfl, fun _ _ _ h => h, Nat.le_refl _, fun _ _ => rfl,
    fun _ h => h, fun j _ hr => (hreg j).trans hr, fun j => ?_⟩, fun u _ => ?_⟩
  · rw [hreg]
    exact h.apart j hj
  · unfold Stats.due
    rw [hreg, hmade, hm]
  · exact ⟨rfl, rfl, rfl, fun _ _ => rfl, fun _ _ => rfl, fun _ _ => rfl, fun _ _ => rfl, fun j _ => hreg j⟩

end Tayga
