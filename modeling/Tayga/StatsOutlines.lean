import Tayga.StatsProofs

/-!
# What the calls achieve

The outlines of the functions, each against whatever the other threads do meanwhile.  A flush leaves all increments of
the thread in its slot (`outline_flush`); a synchronisation that reports everyone synced has the increments that its
request asked for (`outline_syncSlots`); and the sums of a snapshot count every increment once
(`outline_getSnapshot`).
-/

namespace Tayga

open Program

variable {workers : Nat} {s s' : Stats} {t : ThreadId} {k req : Nat} {α : Type} {Q : α → Stats → Prop}
  {P : Stats → Prop} {slot : Option Nat} {mask : BitVec 64} {targetMain : Bool}

/-! ### Assertions of a call -/

/-- An assertion that holds on while the state evolves and the call goes on. -/
def Calm (t : ThreadId) (P : Stats → Prop) : Prop := ∀ s s', Evolves s s' →
  s'.marks.begun t = s.marks.begun t → s'.marks.issued t = s.marks.issued t → P s → P s'

theorem Calm.stable (h : Calm t P) : (statsSide workers t).Stable P :=
  fun s s' hr _ hp => h s s' hr.1 hr.2.begun hr.2.issued hp

theorem Calm.and {P' : Stats → Prop} (h : Calm t P) (h' : Calm t P') : Calm t fun s => P s ∧ P' s :=
  fun s s' he hb hi hp => ⟨h s s' he hb hi hp.1, h' s s' he hb hi hp.2⟩

theorem Calm.imp {p : Prop} (h : Calm t P) : Calm t fun s => p → P s :=
  fun s s' he hb hi hp hq => h s s' he hb hi (hp hq)

private theorem Calm.forall {ι : Sort*} {P : ι → Stats → Prop} (h : ∀ i, Calm t (P i)) : Calm t fun s => ∀ i, P i s :=
  fun s s' he hb hi hp i => h i s s' he hb hi (hp i)

theorem calm_const (p : Prop) : Calm t fun _ => p := fun _ _ _ _ _ h => h

/-- The thread of the slot has exited or stopped, unless it had not registered when the call began. -/
def Gone (t : ThreadId) (s : Stats) (k : Nat) : Prop :=
  s.marks.begun t k = true → s.marks.joined k = true ∧ s.registered k = false

/-- The slot has the increments that the request of the call asks for. -/
def Cleared (t : ThreadId) (s : Stats) (k : Nat) : Prop := ∀ c, Published s k c (s.marks.issued t k)

private theorem calm_gone : Calm t fun s => Gone t s k := by
  intro s s' he hb _ h hk
  rw [hb] at hk
  exact ⟨he.joined k (h hk).1, he.gone k (h hk).1 (h hk).2⟩

private theorem calm_cleared : Calm t fun s => Cleared t s k := by
  intro s s' he _ hi h c
  rw [hi]
  exact he.pub k c _ (h c)

/-- What a call knows of its own marks. -/
structure Asking (t : ThreadId) (s : Stats) : Prop where
  due : ∀ k, s.marks.issued t k ≤ s.due k
  joined : ∀ k, s.marks.begun t k = true → s.marks.joined k = true
  apart : ∀ k, s.marks.begun t k = false → s.marks.issued t k = 0

private theorem calm_asking : Calm t (Asking t) := by
  intro s s' he hb hi h
  refine ⟨fun k => ?_, fun k hk => ?_, fun k hk => ?_⟩
  · rw [hi]
    exact Nat.le_trans (h.due k) (he.due k)
  · rw [hb] at hk
    exact he.joined k (h.joined k hk)
  · rw [hb] at hk
    rw [hi]
    exact h.apart k hk

private theorem Asking.cleared_of_apart (h : Asking t s) (hinv : StatsInv workers s) (hk : s.marks.begun t k = false) :
    Cleared t s k := by
  intro c
  rw [h.apart k hk]
  exact hinv.pub k c

private theorem Asking.cleared_of_gone (h : Asking t s) (hinv : StatsInv workers s) (hg : Gone t s k) :
    Cleared t s k := by
  cases hk : s.marks.begun t k with
  | false => exact h.cleared_of_apart hinv hk
  | true => exact fun c => (hinv.published_due (hg hk).2 c).mono (h.due k)

theorem asking_begin (hinv : StatsInv workers s) (t : ThreadId) : Asking t (s.begin t) := by
  have hb : (s.begin t).marks.begun t = s.marks.joined := Function.update_self _ _ _
  have hi : (s.begin t).marks.issued t = s.due := Function.update_self _ _ _
  refine ⟨fun k => ?_, fun k hk => ?_, fun k hk => ?_⟩
  · rw [hi]
    exact Nat.le_refl _
  · rw [hb] at hk
    exact hk
  · rw [hb] at hk
    obtain ⟨hr, hz, -⟩ := hinv.apart k hk
    rw [hi]
    unfold Stats.due
    rw [hr]
    exact hz

/-! ### Single operations -/

theorem outline_done {a : α} (hQ : Calm t (Q a)) (h : Q a s) : Outline (statsSide workers t) (.done a) Q s :=
  Outline.done hQ.stable h

/-- An operation that reads. -/
private theorem outline_read {op : StatsOp} {next : op.Ans → StatsProgram α} (hop : ∀ s, (perform t op s).2 = s)
    (hP : Calm t P)
    (h : P s) (hnext : ∀ s, StatsInv workers s → P s → Outline (statsSide workers t) (next (perform t op s).1) Q s) :
    Outline (statsSide workers t) (atomic op >>= next) Q s := by
  refine Outline.call (P := P) hP.stable h fun s hinv hp => ?_
  have e : ((statsSide workers t).env op s).2 = s := hop s
  rw [e]
  exact ⟨hinv, .refl t s, hnext s hinv hp⟩

/-- An operation that writes. -/
private theorem outline_write {op : StatsOp} {next : op.Ans → StatsProgram α} (hP : (statsSide workers t).Stable P)
    (h : P s) (hop : ∀ s, StatsInv workers s → P s → Keeps workers t s (perform t op s).2 ∧
      Outline (statsSide workers t) (next (perform t op s).1) Q (perform t op s).2) :
    Outline (statsSide workers t) (atomic op >>= next) Q s :=
  Outline.call (P := P) hP h fun s hinv hp => ⟨(hop s hinv hp).1.inv, (hop s hinv hp).1.guar, (hop s hinv hp).2⟩

/-! ### Flushes -/

/-- The slot has all increments of its thread. -/
def Flushed (slot : Option Nat) (s : Stats) : Prop := ∀ k, slot = some k → ∀ c, Published s k c (s.made k).length

private theorem Counter.mem_all (c : Counter) : c ∈ Counter.all := by
  cases c <;> decide

/-- The slot belongs to the thread. -/
def Holds (t : ThreadId) (slot : Option Nat) : Prop := ∀ k, slot = some k → t = slotOwner k

theorem holds_slot (t : ThreadId) : Holds t t.slot := fun _ h => slotOwner_of_slot h

private theorem stable_published (hk : t = slotOwner k) (c : Counter) :
    (statsSide workers t).Stable fun s => Published s k c (s.made k).length := by
  intro s s' hr _ h
  rw [hr.2.made k hk]
  refine h.of_prefix ?_ (by rw [hr.2.pub k hk])
  rw [hr.2.made k hk]

private theorem stable_flushed (h : Holds t slot) : (statsSide workers t).Stable (Flushed slot) :=
  fun s s' hr hi hf k hk c => stable_published (h k hk) c s s' hr hi (hf k hk c)

/-- **A flush publishes all increments of the thread.** -/
theorem outline_flush (hs : Holds t slot) (hP : Calm t P) (h : P s) :
    Outline (statsSide workers t) (statsFlushWorker slot) (fun _ s => P s ∧ Flushed slot s) s := by
  cases slot with
  | none => exact Outline.done (fun s s' hr hi hq => ⟨hP.stable s s' hr hi hq.1, nofun⟩) ⟨h, nofun⟩
  | some k =>
    have hk := hs k rfl
    have key := Outline.foldlM (v := statsSide workers t) (s := s) (b := ()) (l := Counter.all)
      (f := fun _ c => atomic (.publish k c))
      (J := fun l _ s => P s ∧ ∀ c, c ∉ l → Published s k c (s.made k).length) ?_ ?_ ?_
    · refine key.mono fun _ s _ hq => ⟨hq.1, fun j hj c => ?_⟩
      obtain rfl := Option.some.inj hj
      exact hq.2 c List.not_mem_nil
    · exact fun l _ s s' hr hi hq => ⟨hP.stable s s' hr hi hq.1, fun c hc => stable_published hk c s s' hr hi
          (hq.2 c hc)⟩
    · intro c l _ s hinv hq
      rw [← Program.bind_done (atomic _)]
      refine outline_write (P := fun s => P s ∧ ∀ d, d ∉ c :: l → Published s k d (s.made k).length) ?_ hq
        fun s hinv hq => ?_
      · exact fun s s' hr hi hq =>
          ⟨hP.stable s s' hr hi hq.1, fun d hd => stable_published hk d s s' hr hi (hq.2 d hd)⟩
      · obtain ⟨hkeep, hpub⟩ := keeps_publish hinv hk c
        refine ⟨hkeep, Outline.done ?_ ⟨hP _ _ hkeep.guar.1 rfl rfl hq.1, fun d hd => ?_⟩⟩
        · exact fun s s' hr hi hq =>
            ⟨hP.stable s s' hr hi hq.1, fun d hd => stable_published hk d s s' hr hi (hq.2 d hd)⟩
        · by_cases hdc : d = c
          · rw [hdc]
            exact hpub
          · exact hkeep.guar.1.pub k d _ (hq.2 d (by simp [hdc, hd]))
    · exact ⟨h, fun c hc => absurd c.mem_all hc⟩

/-! ### Calls without a result -/

/-- The thread acknowledges what it has flushed. -/
private theorem outline_storeAck (hk : t = slotOwner k) (hP : Calm t P) {next : Unit → StatsProgram α}
    (h : (P s ∧ Flushed (some k) s) ∧ req ≤ s.syncReq)
    (hnext : ∀ s, StatsInv workers s → P s → Outline (statsSide workers t) (next ()) Q s) :
    Outline (statsSide workers t) (atomic (.storeAck k req) >>= next) Q s := by
  have hs : Holds t (some k) := fun j hj => by
    obtain rfl := Option.some.inj hj
    exact hk
  refine outline_write (P := fun s => (P s ∧ Flushed (some k) s) ∧ req ≤ s.syncReq) ?_ h fun s hinv hq => ?_
  · exact fun s s' hr hi hq => ⟨⟨hP.stable s s' hr hi hq.1.1, stable_flushed hs s s' hr hi hq.1.2⟩,
      Nat.le_trans hq.2 hr.1.req⟩
  · have hkeep := keeps_storeAck hinv hk hq.2 (hq.1.2 k rfl)
    exact ⟨hkeep, hnext _ hkeep.inv (hP _ _ hkeep.guar.1 rfl rfl hq.1.1)⟩

private theorem calm_req : Calm t fun s => req ≤ s.syncReq := fun _ _ he _ _ h => Nat.le_trans h he.req

theorem outline_checkSyncRequest (hs : Holds t slot) :
    Outline (statsSide workers t) (statsCheckSyncRequest slot) (fun _ _ => True) s := by
  cases slot with
  | none => exact outline_done (calm_const True) trivial
  | some k =>
    have hk := hs k rfl
    refine outline_read (P := fun _ => True) (fun _ => rfl) (calm_const True) trivial fun s _ _ => ?_
    refine outline_read (P := fun s' => s.syncReq ≤ s'.syncReq) (fun _ => rfl) calm_req (Nat.le_refl _) fun s' _ hreq
        => ?_
    split
    · refine Outline.bind ((outline_flush (P := fun s' => s.syncReq ≤ s'.syncReq) hs calm_req hreq).mono
        fun _ s'' _ hq => ?_)
      rw [← Program.bind_done (atomic _)]
      exact outline_storeAck hk (calm_const True) ⟨⟨trivial, hq.2⟩, hq.1⟩
        fun _ _ _ => outline_done (calm_const True) trivial
    · exact outline_done (calm_const True) trivial

/-- A worker registers. -/
theorem outline_threadInit {idx : Nat} (hw : idx < workers) (hj : s.marks.joined (idx + 1) = false) :
    Outline (statsSide workers (.worker idx)) (statsThreadInit (ThreadId.worker idx).slot) (fun _ _ => True) s := by
  have hstable : (statsSide workers (.worker idx)).Stable fun s => s.marks.joined (idx + 1) = false :=
    fun s s' hr _ h => (hr.2.joined (idx + 1) rfl).trans h
  refine outline_write hstable hj fun s hinv hj => ?_
  have hkeep := keeps_clear (t := .worker idx) hinv fun k hk => by
    obtain rfl : idx + 1 = k := slotOwner_inj hk
    exact (hinv.apart _ hj).2.2 (Nat.succ_ne_zero idx)
  refine ⟨hkeep, ?_⟩
  cases hslot : (ThreadId.worker idx).slot with
  | none => exact outline_done (calm_const True) trivial
  | some k =>
    have hlt : idx < 64 := by
      have h : (if idx < statsMaxSlots - 1 then some (idx + 1) else none) = some k := hslot
      split at h
      · assumption
      · cases h
    obtain rfl : idx + 1 = k := slotOwner_inj (slotOwner_of_slot hslot)
    dsimp only
    rw [← Program.bind_done (atomic _)]
    refine outline_write (s := (perform (.worker idx) .clear s).2) hstable hj fun s hinv hj => ?_
    refine ⟨(enrolled_storeActive (Nat.succ_ne_zero idx) (.worker idx) true s).register hinv rfl hj ?_,
      outline_done (calm_const True) trivial⟩
    omega

/-- A thread without a slot only clears its counters. -/
theorem outline_threadInit_other (i : Nat) :
    Outline (statsSide workers (.other i)) (statsThreadInit (ThreadId.other i).slot) (fun _ _ => True) s := by
  refine outline_write (P := fun _ => True) (fun _ _ _ _ h => h) trivial fun s hinv _ => ?_
  refine ⟨keeps_clear hinv fun k hk => ?_, outline_done (calm_const True) trivial⟩
  cases k <;> cases hk

private theorem stable_joined (hk : t = slotOwner k) : (statsSide workers t).Stable fun s => s.marks.joined k = true :=
  fun _ _ hr _ h => (hr.2.joined k hk).trans h

/-- A thread that has flushed exits or stops. -/
private theorem outline_retire {op : StatsOp} (hk : t = slotOwner k) (hop : ∀ s, Enrolled k false s (perform t op s).2)
    {next : op.Ans → StatsProgram α} (h : s.marks.joined k = true ∧ Flushed (some k) s)
    (hnext : ∀ s r, StatsInv workers s → Outline (statsSide workers t) (next r) Q s) :
    Outline (statsSide workers t) (atomic op >>= next) Q s := by
  have hs : Holds t (some k) := fun j hj => by
    obtain rfl := Option.some.inj hj
    exact hk
  refine outline_write (P := fun s => s.marks.joined k = true ∧ Flushed (some k) s) ?_ h fun s hinv hq => ?_
  · exact fun s s' hr hi hq => ⟨stable_joined hk s s' hr hi hq.1, stable_flushed hs s s' hr hi hq.2⟩
  · have hkeep := (hop s).retire hinv hk hq.1 (hq.2 k rfl)
    exact ⟨hkeep, hnext _ _ hkeep.inv⟩

theorem outline_mainStart (hj : s.marks.joined 0 = false) :
    Outline (statsSide workers .main) statsMainStart (fun _ _ => True) s := by
  have hstable : (statsSide workers .main).Stable fun s => s.marks.joined 0 = false :=
    fun s s' hr _ h => (hr.2.joined 0 rfl).trans h
  refine outline_write hstable hj fun s hinv hj => ⟨keeps_storeActive_zero hinv .main true, ?_⟩
  rw [← Program.bind_done (atomic _)]
  refine outline_write (s := (perform .main (.storeActive 0 true) s).2) hstable hj fun s hinv hj => ?_
  exact ⟨(enrolled_storeMain .main true s).register hinv rfl hj (Nat.zero_le _), outline_done (calm_const True) trivial⟩

private theorem calm_joined : Calm t fun s => s.marks.joined k = true := fun _ _ he _ _ h => he.joined k h

theorem outline_mainStop (hj : s.marks.joined 0 = true) :
    Outline (statsSide workers .main) (statsMainStop (some 0)) (fun _ _ => True) s := by
  have hs : Holds .main (some 0) := holds_slot .main
  refine Outline.bind ((outline_flush hs calm_joined hj).mono fun _ s _ hq => ?_)
  refine outline_write (P := fun s => s.marks.joined 0 = true ∧ Flushed (some 0) s) ?_ hq fun s hinv hq => ?_
  · exact fun s s' hr hi hq => ⟨stable_joined (t := .main) rfl s s' hr hi hq.1, stable_flushed hs s s' hr hi hq.2⟩
  · refine ⟨keeps_storeActive_zero hinv .main false, ?_⟩
    rw [← Program.bind_done (atomic _)]
    exact outline_retire (s := (perform .main (.storeActive 0 false) s).2) rfl (enrolled_storeMain .main false) hq
      fun _ _ _ => outline_done (calm_const True) trivial

theorem outline_threadExit {idx : Nat} (hj : s.marks.joined (idx + 1) = true) :
    Outline (statsSide workers (.worker idx)) (do
      statsFlushWorker (ThreadId.worker idx).slot
      statsThreadExit (ThreadId.worker idx).slot) (fun _ _ => True) s := by
  have hs := holds_slot (.worker idx)
  refine Outline.bind ((outline_flush hs calm_joined hj).mono fun _ s _ hq => ?_)
  cases hslot : (ThreadId.worker idx).slot with
  | none => exact outline_done (calm_const True) trivial
  | some k =>
    obtain rfl : idx + 1 = k := slotOwner_inj (slotOwner_of_slot hslot)
    rw [hslot] at hq
    have e : statsThreadExit (some (idx + 1)) = atomic (.storeActive (idx + 1) false) := by
      simp [statsThreadExit]
    rw [e, ← Program.bind_done (atomic _)]
    exact outline_retire rfl (enrolled_storeActive (Nat.succ_ne_zero idx) (.worker idx) false) hq
      fun _ _ _ => outline_done (calm_const True) trivial

/-! ### Synchronisation -/

private theorem getLsbD_target (mask : BitVec 64) (a i : Nat) :
    (mask ||| 1#64 <<< a).getLsbD i = (mask.getLsbD i || (decide (i < 64) && decide (i = a))) := by
  simp only [BitVec.getLsbD_or, BitVec.getLsbD_shiftLeft, BitVec.getLsbD_one]
  by_cases h : i = a
  · subst h
    simp
  · have : ¬(a ≤ i ∧ i - a = 0) := by omega
    by_cases hi : i < 64 <;> by_cases ha : i < a <;> simp [h, hi, ha]
    omega

private theorem target_ne_zero (mask : BitVec 64) {a : Nat} (ha : a < 64) : mask ||| 1#64 <<< a ≠ 0 := by
  intro h
  have hb := getLsbD_target mask a a
  rw [h] at hb
  simp [ha] at hb

private theorem mem_workerSlots {i : Nat} : i ∈ workerSlots workers ↔ i < min workers 64 := List.mem_range

/-- A worker that the loop has left out of the mask has gone. -/
structure Targeted (workers : Nat) (t : ThreadId) (l : List Nat) (r : BitVec 64 × Nat) (s : Stats) : Prop where
  gone : ∀ i ∈ workerSlots workers, i ∉ l → r.1.getLsbD i = false → Gone t s (i + 1)
  empty : r.2 = 0 → r.1 = 0

private theorem calm_targeted {l : List Nat} {r : BitVec 64 × Nat} :
    Calm t (Targeted workers t l r) := fun s s' he hb hi h =>
  ⟨fun i hm hl hg => calm_gone s s' he hb hi (h.gone i hm hl hg), h.empty⟩

private theorem outline_targetWorkers (hP : Calm t P) (hA : ∀ s, P s → Asking t s) (h : P s) :
    Outline (statsSide workers t) (targetWorkers workers) (fun r s => P s ∧ Targeted workers t [] r s) s := by
  have hJ : ∀ (l : List Nat) (r : BitVec 64 × Nat), Calm t fun s => P s ∧ Targeted workers t l r s :=
    fun _ _ => hP.and calm_targeted
  refine Outline.foldlM (J := fun l r s => P s ∧ Targeted workers t l r s) (fun l r => (hJ l r).stable)
    (fun a l r s _ hq => ?_) ⟨h, fun i hm hl => absurd hm hl, fun _ => rfl⟩
  refine outline_read (fun _ => rfl) (hJ _ _) hq fun s hinv hq => ?_
  have hv : (perform t (.loadActive (a + 1)) s).1 = s.active (a + 1) := rfl
  rw [hv]
  cases hact : s.active (a + 1) with
  | true =>
    refine outline_done (hJ _ _) ⟨hq.1, fun i hm hl hbit => ?_, fun h0 => absurd h0 (Nat.succ_ne_zero _)⟩
    have hlt : i < 64 := by
      have := mem_workerSlots.1 hm
      omega
    rw [getLsbD_target, Bool.or_eq_false_iff] at hbit
    have hne : i ≠ a := by simpa [hlt] using hbit.2
    exact hq.2.gone i hm (by simp [hne, hl]) hbit.1
  | false =>
    refine outline_done (hJ _ _) ⟨hq.1, fun i hm hl hbit => ?_, hq.2.empty⟩
    by_cases hne : i = a
    · subst hne
      exact fun hb => ⟨(hA s hq.1).joined _ hb, hact⟩
    · exact hq.2.gone i hm (by simp [hne, hl]) hbit

/-- What a call knows while it waits for its request. -/
structure Awaiting (workers : Nat) (t : ThreadId) (mask : BitVec 64) (targetMain : Bool) (req : Nat) (s : Stats) :
    Prop where
  asking : Asking t s
  drawn : req ≤ s.syncReq
  issued : ∀ k, s.marks.begun t k = true → s.marks.issued t k = s.marks.asked req k
  workers : ∀ i ∈ workerSlots workers, mask.getLsbD i = false → Gone t s (i + 1)
  main : targetMain = false → Gone t s 0

private theorem calm_awaiting : Calm t (Awaiting workers t mask targetMain req) := by
  intro s s' he hb hi h
  refine ⟨calm_asking s s' he hb hi h.asking, calm_req s s' he hb hi h.drawn, fun k hk => ?_,
    fun i hm hbit => calm_gone s s' he hb hi (h.workers i hm hbit), fun hm => calm_gone s s' he hb hi (h.main hm)⟩
  rw [hb] at hk
  rw [hi, he.asked req h.drawn]
  exact h.issued k hk

/-- An acknowledgement is a promise. -/
private theorem Awaiting.cleared_of_ack (h : Awaiting workers t mask targetMain req s) (hinv : StatsInv workers s)
    (hk : req ≤ s.syncAck k) : Cleared t s k := by
  cases hb : s.marks.begun t k with
  | false => exact h.asking.cleared_of_apart hinv hb
  | true =>
    intro c
    rw [h.issued k hb]
    exact hinv.acked k c req hk

private theorem Awaiting.cleared_of_gone (h : Awaiting workers t mask targetMain req s) (hinv : StatsInv workers s)
    (hk : s.registered k = false) : Cleared t s k :=
  h.asking.cleared_of_gone hinv fun hb => ⟨h.asking.joined k hb, hk⟩

private theorem outline_mainAcked (hP : Calm t P) (hA : ∀ s, P s → Awaiting workers t mask targetMain req s) (h : P s) :
    Outline (statsSide workers t) (mainAcked targetMain req)
    (fun b s => P s ∧ (b = true → Cleared t s 0)) s := by
  have hQ : ∀ b : Bool, Calm t fun s => P s ∧ (b = true → Cleared t s 0) := fun _ => hP.and calm_cleared.imp
  unfold mainAcked
  cases targetMain with
  | false =>
    refine Outline.of_rely fun s' hr hinv => ?_
    have h' := hP.stable s s' hr hinv h
    exact outline_done (hQ true) ⟨h', fun _ => (hA _ h').asking.cleared_of_gone hinv ((hA _ h').main rfl)⟩
  | true =>
    refine outline_read (fun _ => rfl) hP h fun s hinv h => ?_
    have hv : (perform t .loadMain s).1 = s.mainRegistered := rfl
    rw [hv]
    cases hm : s.mainRegistered with
    | false => exact outline_done (hQ true) ⟨h, fun _ => (hA _ h).cleared_of_gone hinv hm⟩
    | true =>
      refine outline_read (fun _ => rfl) hP h fun s hinv h => ?_
      exact outline_done (hQ _) ⟨h, fun hack => (hA _ h).cleared_of_ack hinv (of_decide_eq_true hack)⟩

/-- A worker that is not among the unacknowledged is cleared. -/
private theorem outline_unacked (hP : Calm t P) (hA : ∀ s, P s → Awaiting workers t mask targetMain req s) {i : Nat}
    (hi : i ∈ workerSlots workers) (h : P s) :
    Outline (statsSide workers t) (unacked mask req i) (fun b s => P s ∧ (b = false → Cleared t s (i + 1))) s := by
  have hQ : ∀ b : Bool, Calm t fun s => P s ∧ (b = false → Cleared t s (i + 1)) := fun _ => hP.and calm_cleared.imp
  unfold unacked
  cases hbit : mask.getLsbD i with
  | false =>
    refine Outline.of_rely fun s' hr hinv => ?_
    have h' := hP.stable s s' hr hinv h
    exact outline_done (hQ false) ⟨h', fun _ => (hA _ h').asking.cleared_of_gone hinv ((hA _ h').workers i hi hbit)⟩
  | true =>
    refine outline_read (fun _ => rfl) hP h fun s hinv h => ?_
    have hv : (perform t (.loadActive (i + 1)) s).1 = s.active (i + 1) := rfl
    rw [hv]
    cases hact : s.active (i + 1) with
    | false => exact outline_done (hQ false) ⟨h, fun _ => (hA _ h).cleared_of_gone hinv hact⟩
    | true =>
      refine outline_read (fun _ => rfl) hP h fun s hinv h => ?_
      refine outline_done (hQ _) ⟨h, fun hack => (hA _ h).cleared_of_ack hinv ?_⟩
      exact Nat.le_of_not_lt (of_decide_eq_false hack)

private theorem calm_slots {l : List Nat} : Calm t fun s => ∀ i ∈ l, Cleared t s (i + 1) :=
  Calm.forall fun _ => calm_cleared.imp

private theorem outline_workersAcked {l : List Nat} (hP : Calm t P)
    (hA : ∀ s, P s → Awaiting workers t mask targetMain req s)
    (hl : ∀ i ∈ l, i ∈ workerSlots workers) (h : P s) : Outline (statsSide workers t) (workersAcked mask req l)
    (fun b s => P s ∧ (b = true → ∀ i ∈ l, Cleared t s (i + 1))) s := by
  induction l generalizing P s with
  | nil => exact outline_done (hP.and (calm_slots.imp)) ⟨h, fun _ i hi => absurd hi List.not_mem_nil⟩
  | cons i l ih =>
    refine Outline.bind ((outline_unacked hP hA (hl i List.mem_cons_self) h).mono fun b s _ hq => ?_)
    cases b with
    | true => exact outline_done (hP.and calm_slots.imp) ⟨hq.1, nofun⟩
    | false =>
      have hP' : Calm t fun s => P s ∧ Cleared t s (i + 1) := hP.and calm_cleared
      refine (ih hP' (fun s hs => hA s hs.1) (fun j hj => hl j (List.mem_cons_of_mem i hj)) ⟨hq.1, hq.2 rfl⟩).mono
        fun b s _ hq => ⟨hq.1.1, fun hb j hj => ?_⟩
      rcases List.mem_cons.1 hj with rfl | hj
      · exact hq.1.2
      · exact hq.2 hb j hj

private theorem outline_lateWorkers (hP : Calm t P) (hA : ∀ s, P s → Awaiting workers t mask targetMain req s)
    (h : P s) :
    Outline (statsSide workers t) (lateWorkers workers mask req)
    (fun late s => P s ∧ (late = 0 → ∀ i ∈ workerSlots workers, Cleared t s (i + 1))) s := by
  have hJ : ∀ (l : List Nat) (late : BitVec 64),
      Calm t fun s => P s ∧ (late = 0 → ∀ i ∈ workerSlots workers, i ∉ l → Cleared t s (i + 1)) := fun l late =>
    hP.and (Calm.imp (Calm.forall fun _ => Calm.imp (Calm.imp calm_cleared)))
  -- only workers that the loop visits are in the list
  have key := Outline.foldlM (v := statsSide workers t) (s := s) (b := 0#64) (l := workerSlots workers)
    (f := fun late i => do
      if ← unacked mask req i then pure (late ||| 1#64 <<< i) else pure late)
    (J := fun l late s => (∀ i ∈ l, i ∈ workerSlots workers) ∧
      (P s ∧ (late = 0 → ∀ i ∈ workerSlots workers, i ∉ l → Cleared t s (i + 1)))) ?_ ?_ ?_
  · exact key.mono fun late s _ hq => ⟨hq.2.1, fun h0 i hi => hq.2.2 h0 i hi List.not_mem_nil⟩
  · exact fun l late s s' hr hi hq => ⟨hq.1, (hJ l late).stable s s' hr hi hq.2⟩
  · intro a l late s _ hq
    have ha := hq.1 a List.mem_cons_self
    refine Outline.bind ((outline_unacked (hJ (a :: l) late) (fun s hs => hA s hs.1) ha hq.2).mono fun b s _ hu => ?_)
    have hl : ∀ i ∈ l, i ∈ workerSlots workers := fun i hi => hq.1 i (List.mem_cons_of_mem a hi)
    have hlt : a < 64 := by
      have := mem_workerSlots.1 ha
      omega
    cases b with
    | true =>
      refine Outline.done (fun s s' hr hi hq => ⟨hq.1, (hJ l _).stable s s' hr hi hq.2⟩) ⟨hl, hu.1.1, fun h0 => ?_⟩
      exact absurd h0 (target_ne_zero late hlt)
    | false =>
      refine Outline.done (fun s s' hr hi hq => ⟨hq.1, (hJ l _).stable s s' hr hi hq.2⟩)
        ⟨hl, hu.1.1, fun h0 i hi hil => ?_⟩
      by_cases hne : i = a
      · rw [hne]
        exact hu.2 rfl
      · exact hu.1.2 h0 i hi (by simp [hne, hil])
  · exact ⟨fun _ hi => hi, h, fun _ i hi hn => absurd hi hn⟩

/-- The slots have what the request asks for, if the report says so. -/
def Synced (t : ThreadId) (out : SyncOut) (s : Stats) : Prop :=
  out.workersSynced = true → out.mainSynced = true → ∀ k, Cleared t s k

private theorem calm_synced {out : SyncOut} :
    Calm t (Synced t out) := Calm.imp (Calm.imp (Calm.forall fun _ => calm_cleared))

/-- The main thread and the workers are all there are. -/
private theorem Asking.cleared_of_slots (h : Asking t s) (hinv : StatsInv workers s) (h0 : Cleared t s 0)
    (hw : ∀ i ∈ workerSlots workers, Cleared t s (i + 1)) (k : Nat) : Cleared t s k := by
  cases hb : s.marks.begun t k with
  | false => exact h.cleared_of_apart hinv hb
  | true =>
    have hle := hinv.joined_le k (h.joined k hb)
    cases k with
    | zero => exact h0
    | succ i => exact hw i (mem_workerSlots.2 (by omega))

private theorem outline_lookAcks (h : Awaiting workers t mask targetMain req s) :
    Outline (statsSide workers t) (lookAcks workers mask targetMain req) (fun r s =>
      (Awaiting workers t mask targetMain req s ∧ (r.1 = true → Cleared t s 0)) ∧
        (r.2 = true → ∀ k, Cleared t s k)) s := by
  refine Outline.bind ((outline_mainAcked calm_awaiting (fun _ h => h) h).mono fun main s _ hm => ?_)
  have hP : Calm t fun s => Awaiting workers t mask targetMain req s ∧ (main = true → Cleared t s 0) :=
    calm_awaiting.and calm_cleared.imp
  refine Outline.bind ((outline_workersAcked hP (fun _ h => h.1) (fun _ hi => hi) hm).mono fun b s hinv hw => ?_)
  refine outline_done (hP.and (Calm.imp (Calm.forall fun _ => calm_cleared))) ⟨hw.1, fun hall => ?_⟩
  rw [Bool.and_eq_true] at hall
  exact hw.1.1.asking.cleared_of_slots hinv (hw.1.2 hall.1) (hw.2 hall.2)

private theorem outline_timedOut {main : Bool}
    (h : Awaiting workers t mask targetMain req s ∧ (main = true → Cleared t s 0)) :
    Outline (statsSide workers t) (timedOut workers mask req main) (Synced t) s := by
  have hP : Calm t fun s => Awaiting workers t mask targetMain req s ∧ (main = true → Cleared t s 0) :=
    calm_awaiting.and calm_cleared.imp
  refine Outline.bind ((outline_lateWorkers hP (fun _ h => h.1) h).mono fun late s hinv hl => ?_)
  refine outline_done calm_synced fun hsynced hmain => ?_
  have h0 : late = 0 := of_decide_eq_true (Bool.and_eq_true_iff.1 hsynced).1
  exact hl.1.1.asking.cleared_of_slots hinv (hl.1.2 hmain) (hl.2 h0)

/-- **A request that is reported as acknowledged is answered**, at the latest when the deadline passes. -/
theorem outline_awaitAcks (rounds : Nat) (h : Awaiting workers t mask targetMain req s) :
    Outline (statsSide workers t) (awaitAcks workers mask targetMain req rounds) (Synced t) s := by
  induction rounds generalizing s with
  | zero =>
    refine Outline.bind ((outline_lookAcks h).mono fun r s _ hr => ?_)
    split
    · rename_i hall
      exact outline_done calm_synced fun _ _ => hr.2 hall
    · exact outline_timedOut hr.1
  | succ rounds ih =>
    refine Outline.bind ((outline_lookAcks h).mono fun r s _ hr => ?_)
    split
    · rename_i hall
      exact outline_done calm_synced fun _ _ => hr.2 hall
    · exact ih hr.1.1

/-- The request is issued. -/
private theorem awaiting_nextReq (h : Asking t s)
    (hw : ∀ i ∈ workerSlots workers, mask.getLsbD i = false → Gone t s (i + 1)) (hm : targetMain = false → Gone t s 0) :
    Awaiting workers t mask targetMain (s.syncReq + 1) (perform t .nextReq s).2 := by
  have hissued : ∀ k, (perform t .nextReq s).2.marks.issued t k =
      if s.marks.begun t k then s.due k else s.marks.issued t k := fun k =>
    congrFun (Function.update_self t _ s.marks.issued) k
  have hasked : (perform t .nextReq s).2.marks.asked (s.syncReq + 1) = s.due := Function.update_self _ _ _
  have hbegun : (perform t .nextReq s).2.marks.begun t = s.marks.begun t := rfl
  refine ⟨⟨fun k => ?_, h.joined, fun k hk => ?_⟩, Nat.le_refl _, fun k hk => ?_, hw, hm⟩
  · show (perform t .nextReq s).2.marks.issued t k ≤ s.due k
    rw [hissued]
    split
    · exact Nat.le_refl _
    · exact h.due k
  · rw [hbegun] at hk
    rw [hissued, hk]
    exact h.apart k hk
  · rw [hbegun] at hk
    rw [hissued, hk, hasked]
    rfl

/-- **A synchronisation that reports everyone synced has what its request asked for.** -/
theorem outline_syncSlots (hs : Holds t slot) (rounds : Nat) (h : Asking t s) :
    Outline (statsSide workers t) (statsSyncSlots workers slot rounds) (Synced t) s := by
  refine outline_read (fun _ => rfl) calm_asking h fun s hinv h => ?_
  have hv : (perform t .loadMain s).1 = s.mainRegistered := rfl
  rw [hv]
  generalize hm : s.mainRegistered = main
  have hmain : Asking t s ∧ (main = false → Gone t s 0) := by
    subst hm
    exact ⟨h, fun hreg hb => ⟨h.joined 0 hb, hreg⟩⟩
  have hP : Calm t fun s => Asking t s ∧ (main = false → Gone t s 0) := calm_asking.and calm_gone.imp
  refine Outline.bind ((outline_targetWorkers hP (fun _ h => h.1) hmain).mono fun r s hinv hq => ?_)
  have hgone : ∀ i ∈ workerSlots workers, r.1.getLsbD i = false → Gone t s (i + 1) := fun i hi =>
    hq.2.gone i hi List.not_mem_nil
  by_cases hnone : r.2 = 0 ∧ main = false
  · rw [if_pos hnone]
    -- nobody is registered
    have hall : Synced t ⟨true, 0, true, 0⟩ s := fun _ _ => by
      refine hq.1.1.cleared_of_slots hinv (hq.1.1.cleared_of_gone hinv (hq.1.2 hnone.2)) fun i hi => ?_
      refine hq.1.1.cleared_of_gone hinv (hgone i hi ?_)
      rw [hq.2.empty hnone.1]
      exact BitVec.getLsbD_zero
    exact Outline.bind ((outline_flush hs calm_synced hall).mono fun _ s _ hq => outline_done calm_synced hq.1)
  · rw [if_neg hnone]
    have hP' : Calm t fun s => (Asking t s ∧ (main = false → Gone t s 0)) ∧ Targeted workers t [] r s :=
      hP.and calm_targeted
    refine outline_write hP'.stable hq fun s hinv hq => ⟨keeps_nextReq hinv t, ?_⟩
    have hawait : Awaiting workers t r.1 main (s.syncReq + 1) (perform t .nextReq s).2 :=
      awaiting_nextReq hq.1.1 (fun i hi => hq.2.gone i hi List.not_mem_nil) hq.1.2
    refine Outline.bind ((outline_flush hs calm_awaiting hawait).mono fun _ s _ hq => ?_)
    cases slot with
    | none => exact outline_awaitAcks rounds hq.1
    | some idx =>
      exact outline_storeAck (hs idx rfl) calm_awaiting ⟨hq, hq.1.drawn⟩ fun s _ hq => outline_awaitAcks rounds hq

/-! ### Snapshots -/

/-- The value is the sum of the first increments of the thread of the slot, with those that were asked for. -/
def Covers (t : ThreadId) (s : Stats) (k : Nat) (c : Counter) (v : BitVec 64) : Prop :=
  ∃ n, s.marks.issued t k ≤ n ∧ n ≤ (s.made k).length ∧ v = total c ((s.made k).take n)

private theorem calm_covers {c : Counter} {v : BitVec 64} : Calm t fun s => Covers t s k c v := by
  rintro s s' he _ hi ⟨n, hn, hle, hv⟩
  obtain ⟨l, hl⟩ := he.made k
  refine ⟨n, ?_, ?_, ?_⟩
  · rw [hi]
    exact hn
  · exact Nat.le_trans hle (he.made k).length_le
  · rw [hv, ← hl, List.take_append_of_le_length hle]

/-- The counters of a slot are added, every increment once. -/
private theorem outline_addSlot {p : Prop} (hP : Calm t P) (hA : ∀ s, P s → p → Cleared t s k)
    {out : Counter → BitVec 64} (h : P s) : Outline (statsSide workers t) (addSlot out k)
    (fun out' s => P s ∧ (p → ∀ c, ∃ v, Covers t s k c v ∧ out' c = out c + v)) s := by
  have hJ : ∀ (l : List Counter) (cur : Counter → BitVec 64), Calm t fun s => P s ∧ (p → ∀ c,
      (c ∈ l → cur c = out c) ∧ (c ∉ l → ∃ v, Covers t s k c v ∧ cur c = out c + v)) := by
    rintro l cur s s' he hb hi ⟨hp, hl⟩
    refine ⟨hP s s' he hb hi hp, fun hq c => ⟨(hl hq c).1, fun hc => ?_⟩⟩
    obtain ⟨v, hv, hcur⟩ := (hl hq c).2 hc
    exact ⟨v, calm_covers s s' he hb hi hv, hcur⟩
  have key := Outline.foldlM (v := statsSide workers t) (s := s) (b := out) (l := Counter.all)
    (f := fun cur c => do
      let v ← atomic (.loadPub k c)
      pure (Function.update cur c (cur c + v)))
    (J := fun l cur s => l.Nodup ∧ (P s ∧ (p → ∀ c,
      (c ∈ l → cur c = out c) ∧ (c ∉ l → ∃ v, Covers t s k c v ∧ cur c = out c + v)))) ?_ ?_ ?_
  · exact key.mono fun cur s _ hq => ⟨hq.2.1, fun hp c => (hq.2.2 hp c).2 List.not_mem_nil⟩
  · exact fun l cur s s' hr hi hq => ⟨hq.1, (hJ l cur).stable s s' hr hi hq.2⟩
  · intro c l cur s _ hq
    obtain ⟨hc, hnd⟩ := List.nodup_cons.1 hq.1
    refine outline_read (fun _ => rfl) (hJ (c :: l) cur) hq.2 fun s hinv hq => ?_
    refine Outline.done (fun s s' hr hi hq => ⟨hq.1, (hJ l _).stable s s' hr hi hq.2⟩) ⟨hnd, hq.1, fun hp d => ?_⟩
    by_cases hd : d = c
    · subst hd
      refine ⟨fun hm => absurd hm hc, fun _ => ?_⟩
      obtain ⟨n, hn, hle, hv⟩ := hA s hq.1 hp d
      refine ⟨s.pub k d, ⟨n, hn, hle, hv⟩, ?_⟩
      rw [Function.update_self, (hq.2 hp d).1 List.mem_cons_self]
      rfl
    · rw [Function.update_of_ne hd]
      exact ⟨fun hm => (hq.2 hp d).1 (List.mem_cons_of_mem c hm), fun hm => (hq.2 hp d).2 (by simp [hd, hm])⟩
  · exact ⟨by decide, h, fun _ c => ⟨fun _ => rfl, fun hc => absurd c.mem_all hc⟩⟩

/-- The sums of the slots in the list. -/
def Sums (t : ThreadId) (l : List Nat) (out : Counter → BitVec 64) (s : Stats) : Prop :=
  ∀ c, ∃ v : Nat → BitVec 64, (∀ k ∈ l, Covers t s k c (v k)) ∧ out c = (l.map v).sum

theorem calm_sums {l : List Nat} {out : Counter → BitVec 64} : Calm t (Sums t l out) := by
  intro s s' he hb hi h c
  obtain ⟨v, hv, hout⟩ := h c
  exact ⟨v, fun k hk => calm_covers s s' he hb hi (hv k hk), hout⟩

/-- One more slot. -/
theorem Sums.snoc {l : List Nat} {out out' : Counter → BitVec 64} (h : Sums t l out s) (hk : k ∉ l)
    (ha : ∀ c, ∃ v, Covers t s k c v ∧ out' c = out c + v) : Sums t (l ++ [k]) out' s := by
  intro c
  obtain ⟨v, hv, hout⟩ := h c
  obtain ⟨w, hw, hout'⟩ := ha c
  have hne : ∀ j ∈ l, Function.update v k w j = v j := by
    intro j hj
    refine Function.update_of_ne ?_ _ _
    rintro rfl
    exact hk hj
  refine ⟨Function.update v k w, fun j hj => ?_, ?_⟩
  · rcases List.mem_append.1 hj with hj | hj
    · rw [hne j hj]
      exact hv j hj
    · obtain rfl := List.mem_singleton.1 hj
      rw [Function.update_self]
      exact hw
  · rw [hout', hout, List.map_append, List.sum_append, List.map_congr_left hne]
    simp

/-- **A snapshot that reports everyone synced counts every increment it asked for, and none twice.** -/
theorem outline_getSnapshot (hs : Holds t slot) (rounds : Nat) (h : Asking t s) :
    Outline (statsSide workers t) (statsGetSnapshot workers slot rounds) (fun out s =>
      out.workersSynced = true → out.mainSynced = true → Sums t (List.range statsMaxSlots) out.counters s) s := by
  refine Outline.bind ((outline_syncSlots hs rounds h).mono fun sync s _ hsync => ?_)
  -- the slots that the loop has passed
  have hJ : ∀ (l : List Nat) (out : Counter → BitVec 64), Calm t fun s => Synced t sync s ∧
      ∃ l', l' ++ l = List.range statsMaxSlots ∧
        (sync.workersSynced = true ∧ sync.mainSynced = true → Sums t l' out s) := by
    rintro l out s s' he hb hi ⟨hp, l', hl, hsum⟩
    exact ⟨calm_synced s s' he hb hi hp, l', hl, fun hf => calm_sums s s' he hb hi (hsum hf)⟩
  have key := Outline.foldlM (v := statsSide workers t) (s := s) (b := fun _ => 0) (l := List.range statsMaxSlots)
    (f := addSlot) (fun l out => (hJ l out).stable) ?_ ⟨hsync, [], rfl, fun _ c => ⟨fun _ => 0, nofun, rfl⟩⟩
  · refine Outline.bind (key.mono fun out s _ hq => ?_)
    obtain ⟨-, l', hl, hsum⟩ := hq
    rw [List.append_nil] at hl
    subst hl
    exact outline_done (Calm.imp (Calm.imp calm_sums)) fun hw hm => hsum ⟨hw, hm⟩
  · intro k l out s _ hq
    refine (outline_addSlot (p := sync.workersSynced = true ∧ sync.mainSynced = true) (hJ (k :: l) out)
      (fun s hs hp => hs.1 hp.1 hp.2 k) hq).mono fun out' s _ hq => ?_
    obtain ⟨⟨hsync, l', hl, hsum⟩, hadd⟩ := hq
    have hk : k ∉ l' := by
      have hnd : (l' ++ k :: l).Nodup := by
        rw [hl]
        exact List.nodup_range
      exact fun hm => (List.nodup_append.1 hnd).2.2 k hm k List.mem_cons_self rfl
    refine ⟨hsync, l' ++ [k], by rw [← hl, List.append_assoc]; rfl, fun hf => ?_⟩
    exact (hsum hf).snoc hk (hadd hf)

end Tayga
