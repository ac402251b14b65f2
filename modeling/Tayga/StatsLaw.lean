import Tayga.StatsOutlines

/-!
# Every increment counts once

Every event keeps the outlines of all threads (`CountingInv.step`), so a snapshot that reports everyone synced counts
every increment that was due when its request was issued, and counts none twice (`stats_snapshot_run`).
-/

namespace Tayga

open Program

variable {workers : Nat} {m : Counting} {s : Stats} {t : ThreadId}

/-- What a call ends with. -/
def Ended (t : ThreadId) (r : Option TaygaStats) (s : Stats) : Prop := ∀ out, r = some out →
  out.workersSynced = true → out.mainSynced = true → Sums t (List.range statsMaxSlots) out.counters s

private theorem calm_ended {r : Option TaygaStats} : Calm t (Ended t r) := fun s s' he hb hi h out hr hw hm =>
  calm_sums s s' he hb hi (h out hr hw hm)

private theorem outline_end {p : StatsProgram Unit} (h : Outline (statsSide workers t) p (fun _ _ => True) s) :
    Outline (statsSide workers t) (p >>= fun _ => pure none) (Ended t) s :=
  Outline.bind (h.mono fun _ _ _ _ => outline_done calm_ended nofun)

/-- **Every call that a thread may begin has its outline.** -/
theorem outline_call (hinv : StatsInv workers s) {f : StatsCall} (hp : s.permits workers t f = true) :
    Outline (statsSide workers t) (f.program workers t.slot) (Ended t) (s.begin t) := by
  have hask := asking_begin hinv t
  have hs := holds_slot t
  have hjoined : ∀ k, s.registered k = true → s.marks.joined k = true := fun k hr => by
    cases hj : s.marks.joined k with
    | true => rfl
    | false =>
      rw [(hinv.apart k hj).1] at hr
      cases hr
  cases f with
  | threadInit =>
    cases t with
    | main => cases hp
    | worker idx =>
      simp only [Stats.permits, Bool.and_eq_true, decide_eq_true_eq, Bool.not_eq_true'] at hp
      exact outline_end (outline_threadInit hp.1 hp.2)
    | other i => exact outline_end (outline_threadInit_other i)
  | threadExit =>
    cases t with
    | main => cases hp
    | worker idx =>
      have hexit : Outline (statsSide workers (.worker idx)) _ (fun _ _ => True) (s.begin (.worker idx)) :=
        outline_threadExit (hjoined (idx + 1) hp)
      have hend := outline_end hexit
      rw [Program.bind_assoc] at hend
      exact hend
    | other i => cases hp
  | mainStart =>
    cases t with
    | main =>
      simp only [Stats.permits, Bool.not_eq_true'] at hp
      exact outline_end (outline_mainStart hp)
    | worker idx => cases hp
    | other i => cases hp
  | mainStop =>
    cases t with
    | main => exact outline_end (outline_mainStop (hjoined 0 hp))
    | worker idx => cases hp
    | other i => cases hp
  | flushWorker => exact outline_end ((outline_flush hs (calm_const True) trivial).mono fun _ _ _ _ => trivial)
  | checkSyncRequest => exact outline_end (outline_checkSyncRequest hs)
  | syncWorkers rounds =>
    exact Outline.bind ((outline_syncSlots hs rounds hask).mono fun _ _ _ _ => outline_done calm_ended nofun)
  | getSnapshot rounds =>
    refine Outline.bind ((outline_getSnapshot hs rounds hask).mono fun out s _ hq => ?_)
    refine outline_done calm_ended fun out' he hw hm => ?_
    obtain rfl := Option.some.inj he
    exact hq hw hm

/-! ### Runs -/

/-- The invariant of the threads: every one has its outline. -/
abbrev CountingInv (workers : Nat) (m : Counting) : Prop := Threads.Outlined (statsSide workers) Ended m

private theorem statsInv_init : StatsInv workers statsInit where
  priv _ _ := rfl
  pub _ _ := ⟨0, Nat.le_refl _, Nat.le_refl _, rfl⟩
  settled _ _ _ := ⟨0, Nat.le_refl _, Nat.le_refl _, rfl⟩
  acked _ _ _ _ := ⟨0, Nat.le_refl _, Nat.le_refl _, rfl⟩
  ack_le _ := Nat.le_refl _
  asked_le _ _ _ := Nat.le_refl _
  apart k _ := by
    refine ⟨?_, rfl, fun _ => rfl⟩
    by_cases hk : k = 0 <;> simp [Stats.registered, statsInit, hk]
  joined_le _ h := by cases h

private theorem countingInv_start : CountingInv workers .start :=
  ⟨fun _ => statsInv_init, fun _ => outline_done calm_ended nofun⟩

private theorem Counting.resting_eq (h : m.resting t = true) : ∃ r, m.program t = .done r := by
  unfold Counting.resting at h
  cases hp : m.program t with
  | done r => exact ⟨r, rfl⟩
  | call op next =>
    rw [hp] at h
    cases h

/-- Every event keeps the outlines. -/
theorem CountingInv.step (h : CountingInv workers m) (e : StatsEvent) : CountingInv workers (statsStep workers m e)
    := by
  cases e with
  | count t c v =>
    simp only [statsStep]
    split
    · rename_i hc
      rw [Bool.and_eq_true] at hc
      obtain ⟨r, hr⟩ := Counting.resting_eq hc.1
      have hkeep := keeps_count (h.inv t) hc.2 c v
      refine h.outside hr (fun _ => hkeep.inv) (fun u hu => ⟨hkeep.guar.1, hkeep.guar.2 u hu⟩) calm_ended.stable ?_
      exact calm_ended _ _ hkeep.guar.1 rfl rfl (h.result hr)
    · exact h
  | call t f =>
    simp only [statsStep]
    split
    · rename_i hc
      rw [Bool.and_eq_true] at hc
      have hkeep := keeps_begin (h.inv t) t
      exact h.start (fun _ => hkeep.inv) (fun u hu => ⟨hkeep.guar.1, hkeep.guar.2 u hu⟩) (outline_call (h.inv t) hc.2)
    · exact h
  | run t => exact h.run (fun _ _ _ h => h) (fun t u _ _ hu hg => ⟨hg.1, hg.2 u hu⟩) t

theorem CountingInv.run (h : CountingInv workers m) (es : List StatsEvent) :
    CountingInv workers (Run.run (statsStep workers) m es) := by
  induction es generalizing m with
  | nil => exact h
  | cons e es ih => exact ih (h.step e)

/-- The state only evolves. -/
private theorem CountingInv.evolves (h : CountingInv workers m) (e : StatsEvent) :
    Evolves m.state (statsStep workers m e).state := by
  cases e with
  | count t c v =>
    simp only [statsStep]
    split
    · rename_i hc
      rw [Bool.and_eq_true] at hc
      exact (keeps_count (h.inv t) hc.2 c v).guar.1
    · exact .refl _
  | call t f =>
    simp only [statsStep]
    split
    · exact (keeps_begin (h.inv t) t).guar.1
    · exact .refl _
  | run t =>
    have ho := h.outline t
    simp only [statsStep, Threads.run]
    cases hp : m.program t with
    | done r => exact .refl _
    | call op next =>
      rw [hp] at ho
      exact (ho m.state ⟨.refl _, .refl _ _⟩ (h.inv t)).2.1.1

/-- A request asks for what is due, or for what it asked for before. -/
private theorem issued_perform (u : ThreadId) (op : StatsOp) (s : Stats) (t : ThreadId) (k : Nat) :
    (perform u op s).2.marks.issued t k = s.marks.issued t k ∨ (perform u op s).2.marks.issued t k = s.due k := by
  have henroll : ∀ slot b, (s.enroll slot b).issued = s.marks.issued := fun slot b => by cases b <;> rfl
  cases op with
  | storeActive slot b =>
    refine .inl ?_
    show (if slot = 0 then s.marks else s.enroll slot b).issued t k = s.marks.issued t k
    split
    · rfl
    · rw [henroll]
  | storeMain b =>
    refine .inl ?_
    show (s.enroll 0 b).issued t k = s.marks.issued t k
    rw [henroll]
  | nextReq =>
    show Function.update s.marks.issued u (fun slot => if s.marks.begun u slot then s.due slot else s.marks.issued u
        slot)
      t k = _ ∨ Function.update s.marks.issued u _ t k = _
    by_cases hu : t = u
    · subst hu
      rw [Function.update_self]
      split
      · exact .inr rfl
      · exact .inl rfl
    · rw [Function.update_of_ne hu]
      exact .inl rfl
  | _ => exact .inl rfl

/-- Until its next call, what was due when the thread began this one is asked for. -/
private theorem asked_for_run (h : CountingInv workers m) {due : Nat → Nat} (hd : ∀ k, due k ≤ m.state.due k)
    (hi : ∀ k, due k ≤ m.state.marks.issued t k) {es : List StatsEvent} (hes : ∀ f, .call t f ∉ es) (k : Nat) :
    due k ≤ (Run.run (statsStep workers) m es).state.marks.issued t k := by
  induction es generalizing m with
  | nil => exact hi k
  | cons e es ih =>
    refine ih (h.step e) (fun k => Nat.le_trans (hd k) ((h.evolves e).due k)) (fun k => ?_)
      fun f hf => hes f (List.mem_cons_of_mem e hf)
    cases e with
    | count u c v =>
      simp only [statsStep]
      split <;> exact hi k
    | call u f =>
      have hu : t ≠ u := by
        rintro rfl
        exact hes f List.mem_cons_self
      simp only [statsStep]
      split
      · show due k ≤ Function.update m.state.marks.issued u m.state.due t k
        rw [Function.update_of_ne hu]
        exact hi k
      · exact hi k
    | run u =>
      simp only [statsStep, Threads.run]
      cases m.program u with
      | done r => exact hi k
      | call op next =>
        rcases issued_perform u op m.state t k with e | e
        · exact Nat.le_trans (hi k) (Nat.le_of_eq e.symm)
        · exact Nat.le_trans (hd k) (Nat.le_of_eq e.symm)

private theorem syncReq_perform_le (u : ThreadId) (op : StatsOp) (s : Stats) :
    (perform u op s).2.syncReq ≤ s.syncReq + 1 := by
  cases op with
  | nextReq => exact Nat.le_refl _
  | _ => exact Nat.le_succ _

private theorem syncReq_step_le (e : StatsEvent) : (statsStep workers m e).state.syncReq ≤ m.state.syncReq + 1 := by
  cases e with
  | count u c v =>
    simp only [statsStep]
    split <;> exact Nat.le_succ _
  | call u f =>
    simp only [statsStep]
    split <;> exact Nat.le_succ _
  | run u =>
    simp only [statsStep, Threads.run]
    cases m.program u with
    | done r => exact Nat.le_succ _
    | call op next => exact syncReq_perform_le u op m.state

/-- **The request counter does not wrap** before the event number `2 ^ 64`: no event adds more than one to it. -/
theorem syncReq_run_le (es : List StatsEvent) :
    (Run.run (statsStep workers) m es).state.syncReq ≤ m.state.syncReq + es.length := by
  induction es generalizing m with
  | nil => exact Nat.le_refl _
  | cons e es ih =>
    have hstep : (statsStep workers m e).state.syncReq ≤ m.state.syncReq + 1 := syncReq_step_le e
    have hrest : (Run.run (statsStep workers) (statsStep workers m e) es).state.syncReq ≤
        (statsStep workers m e).state.syncReq + es.length := ih
    rw [Run.run_cons, List.length_cons]
    omega

/-- **A snapshot that reports everyone synced counts every increment it asked for, and none twice.**  A thread calls
for a snapshot after any run of increments, flushes, checks, snapshots and time-outs of any threads, and any run goes
on until the call returns.  Every counter of the snapshot is the sum over the slots of a beginning of the increments of
the thread of the slot: with all that were due from it when the call began, and, if it had registered by then, with all
that were due when the request number was drawn. -/
theorem stats_snapshot_run {es₁ es₂ : List StatsEvent} {rounds : Nat} {out : TaygaStats}
    (hrest : (Run.run (statsStep workers) .start es₁).resting t = true)
    (hpermits : (Run.run (statsStep workers) .start es₁).state.permits workers t (.getSnapshot rounds) = true)
    (hes : ∀ f, .call t f ∉ es₂)
    (hout : (Run.run (statsStep workers) .start (es₁ ++ .call t (.getSnapshot rounds) :: es₂)).snapshot t = some out)
    (hw : out.workersSynced = true) (hm : out.mainSynced = true) :
    let s₁ := (Run.run (statsStep workers) .start es₁).state
    let s₂ := (Run.run (statsStep workers) .start (es₁ ++ .call t (.getSnapshot rounds) :: es₂)).state
    ∀ c, ∃ n : Nat → Nat,
      (∀ slot < statsMaxSlots, s₁.due slot ≤ n slot ∧ s₂.marks.issued t slot ≤ n slot ∧ n slot ≤
          (s₂.made slot).length) ∧
      out.counters c = ((List.range statsMaxSlots).map fun slot => total c ((s₂.made slot).take (n slot))).sum := by
  intro s₁ s₂ c
  have h₁ : CountingInv workers (Run.run (statsStep workers) .start es₁) := countingInv_start.run es₁
  have h₂ : CountingInv workers (Run.run (statsStep workers) .start (es₁ ++ .call t (.getSnapshot rounds) :: es₂)) :=
    countingInv_start.run _
  have hdue : ∀ slot, s₁.due slot ≤ s₂.marks.issued t slot := by
    have hcall : statsStep workers (Run.run (statsStep workers) .start es₁) (.call t (.getSnapshot rounds)) =
        Threads.start ⟨s₁.begin t, (Run.run (statsStep workers) .start es₁).program⟩ t
          (StatsCall.program workers t.slot (.getSnapshot rounds)) := by
      rw [statsStep, if_pos (by rw [hrest, hpermits]; rfl)]
    have hstep := h₁.step (.call t (.getSnapshot rounds))
    have e : s₂ = (Run.run (statsStep workers)
        (statsStep workers (Run.run (statsStep workers) .start es₁) (.call t (.getSnapshot rounds))) es₂).state := by
      show (Run.run (statsStep workers) .start (es₁ ++ .call t (.getSnapshot rounds) :: es₂)).state = _
      rw [Run.run_append, Run.run_cons]
    rw [e]
    refine asked_for_run hstep (fun k => ?_) (fun k => ?_) hes
    · rw [hcall]
      exact Nat.le_refl _
    · rw [hcall]
      show s₁.due k ≤ Function.update s₁.marks.issued t s₁.due t k
      rw [Function.update_self]
  have hend : (Run.run (statsStep workers) .start (es₁ ++ .call t (.getSnapshot rounds) :: es₂)).program t =
      .done (some out) := by
    unfold Counting.snapshot at hout
    split at hout
    · rename_i r hr
      rw [hr, hout]
    · cases hout
  obtain ⟨v, hv, hsum⟩ := h₂.result hend out rfl hw hm c
  have hn : ∀ slot, ∃ n, slot ∈ List.range statsMaxSlots → s₂.marks.issued t slot ≤ n ∧ n ≤ (s₂.made slot).length ∧
      v slot = total c ((s₂.made slot).take n) := fun slot => by
    by_cases hs : slot ∈ List.range statsMaxSlots
    · obtain ⟨n, hn⟩ := hv slot hs
      exact ⟨n, fun _ => hn⟩
    · exact ⟨0, fun h => absurd h hs⟩
  choose n hn using hn
  refine ⟨n, fun slot hs => ?_, hsum.trans (congrArg _ (List.map_congr_left fun slot hs => (hn slot hs).2.2))⟩
  obtain ⟨hlo, hhi, -⟩ := hn slot (List.mem_range.2 hs)
  exact ⟨Nat.le_trans (hdue slot) hlo, hlo, hhi⟩

/-- What a snapshot reports is what its synchronisation reported. -/
private theorem exec_getSnapshot (workers : Nat) (slot : Option Nat) (rounds : Nat) (s : Stats) :
    ∃ out, ((StatsCall.program workers slot (.getSnapshot rounds)).exec (perform t) s).2.1 = some out ∧
      out.workersSynced = ((statsSyncSlots workers slot rounds).exec (perform t) s).2.1.workersSynced ∧
      out.mainSynced = ((statsSyncSlots workers slot rounds).exec (perform t) s).2.1.mainSynced := by
  refine ⟨((statsGetSnapshot workers slot rounds).exec (perform t) s).2.1, ?_, ?_⟩
  · simp only [StatsCall.program, Program.exec_bind]
    rfl
  · simp only [statsGetSnapshot, Program.exec_bind]
    exact ⟨rfl, rfl⟩

/-- A snapshot whose thread runs alone returns. -/
private theorem exists_snapshot (hrest : m.resting t = true) {rounds : Nat}
    (hpermits : m.state.permits workers t (.getSnapshot rounds) = true) :
    ∃ (es : List StatsEvent) (out : TaygaStats), (∀ f, .call t f ∉ es) ∧
      (Run.run (statsStep workers) m (.call t (.getSnapshot rounds) :: es)).snapshot t = some out ∧
      out.workersSynced = ((statsSyncSlots workers t.slot rounds).exec (perform t)
          (m.state.begin t)).2.1.workersSynced ∧
      out.mainSynced = ((statsSyncSlots workers t.slot rounds).exec (perform t) (m.state.begin t)).2.1.mainSynced := by
  obtain ⟨out, hout, hflags⟩ := exec_getSnapshot (t := t) workers t.slot rounds (m.state.begin t)
  have hcall : statsStep workers m (.call t (.getSnapshot rounds)) = Threads.start ⟨m.state.begin t, m.program⟩ t
      (StatsCall.program workers t.slot (.getSnapshot rounds)) := by
    rw [statsStep, if_pos (by rw [hrest, hpermits]; rfl)]
  have hprog : (statsStep workers m (.call t (.getSnapshot rounds))).program t =
      StatsCall.program workers t.slot (.getSnapshot rounds) := by
    rw [hcall]
    exact Function.update_self _ _ _
  have hstate : (statsStep workers m (.call t (.getSnapshot rounds))).state = m.state.begin t := by
    rw [hcall]
    rfl
  have h := Threads.iterate_run perform hprog
  rw [hstate] at h
  refine ⟨List.replicate ((StatsCall.program workers t.slot (.getSnapshot rounds)).exec (perform t)
    (m.state.begin t)).1.length (.run t), out, fun f hf => ?_, ?_, hflags⟩
  · cases List.eq_of_mem_replicate hf
  · rw [Run.run_cons, Run.run_replicate]
    show Counting.snapshot ((fun m => m.run perform t)^[_] _) t = _
    rw [h]
    unfold Counting.snapshot
    simp only [Function.update_self, hout]

/-- A worker registers, counts and exits, and the main thread registers and counts. -/
def sampleCounts : List StatsEvent :=
  .call (.worker 0) .threadInit :: List.replicate 2 (.run (.worker 0)) ++
    .count (.worker 0) .rxPktsV4 3 :: .call (.worker 0) .threadExit :: List.replicate 36 (.run (.worker 0)) ++
    .call .main .mainStart :: List.replicate 2 (.run .main) ++ [.count .main .rxPktsV4 1]

/-- The snapshot that the main thread takes then counts the packets of both. -/
theorem stats_snapshot_run_sample : ∃ (es : List StatsEvent) (out : TaygaStats),
    let s := Run.run (statsStep 1) .start (sampleCounts ++ .call .main (.getSnapshot 0) :: es)
    s.snapshot .main = some out ∧ ∃ n : Nat → Nat, 1 ≤ n 0 ∧ 1 ≤ n 1 ∧
      out.counters .rxPktsV4 = ((List.range statsMaxSlots).map fun slot =>
        total .rxPktsV4 ((s.state.made slot).take (n slot))).sum := by
  have hcall : (Run.run (statsStep 1) .start sampleCounts).resting .main = true ∧
      (Run.run (statsStep 1) .start sampleCounts).state.permits 1 .main (.getSnapshot 0) = true := by decide +kernel
  have hdue : 1 ≤ (Run.run (statsStep 1) .start sampleCounts).state.due 0 ∧
      1 ≤ (Run.run (statsStep 1) .start sampleCounts).state.due 1 := by decide +kernel
  have hsync : ((statsSyncSlots 1 (some 0) 0).exec (perform .main)
        ((Run.run (statsStep 1) .start sampleCounts).state.begin .main)).2.1.workersSynced = true ∧
      ((statsSyncSlots 1 (some 0) 0).exec (perform .main)
        ((Run.run (statsStep 1) .start sampleCounts).state.begin .main)).2.1.mainSynced = true := by decide +kernel
  obtain ⟨es, out, hes, hout, hw, hm⟩ := exists_snapshot hcall.1 hcall.2
  rw [← Run.run_append] at hout
  obtain ⟨n, hn, hsum⟩ := stats_snapshot_run hcall.1 hcall.2 hes hout (hw.trans hsync.1) (hm.trans hsync.2) .rxPktsV4
  exact ⟨es, out, hout, n, Nat.le_trans hdue.1 (hn 0 (by decide)).1, Nat.le_trans hdue.2 (hn 1 (by decide)).1, hsum⟩

end Tayga
