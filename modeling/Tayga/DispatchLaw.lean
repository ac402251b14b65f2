import Tayga.DispatchOrder

/-!
# The law of the dispatcher

The packets of a flow bucket reach one worker in the order of their submission, the fragments of a datagram reach the
worker of its first fragment, and a fragment whose context has expired reaches none.  The fragments of one datagram
reach the worker in order exactly as long as none of them overtakes parked ones (`dispatch_order_run`): when the first
fragment finds no slot, it has named the queue all the same, and a later fragment goes ahead of those still parked
(`dispatch_order_overtaken`).
-/

namespace Tayga

open SlotPool

namespace Dispatching

variable {v : Nat} {s s' : Dispatching} {c : Place → List Nat}

/-! ### Fragments that overtake -/

/-- Two later fragments of one datagram. -/
def SameDatagram (p q : FlowPacket) : Prop := p.Later ∧ q.Later ∧ p.fragmentKey = q.fragmentKey

/-- A later fragment that gets a slot while earlier ones are still parked in its context: the first fragment has named
the queue, but found no slot. -/
def Overtakes (v : Nat) (s : Dispatching) : DispatchEvent → Prop
  | .submit _ now buffer => ∃ p, classify v buffer = some p ∧ p.Later ∧
      (s.d.fragments p.context).resolved = 1 ∧ (s.d.fragments p.context).key = p.fragmentKey ∧
      now < (s.d.fragments p.context).deadline ∧ s.parked p.context ≠ [] ∧ (s.d.takeSlot false).isSome
  | _ => False

/-- The later fragments of every datagram are queued in order, and parked ones are ahead of all others. -/
structure Queues (v : Nat) (s : Dispatching) : Prop where
  in_order : ∀ w, s.InOrder v SameDatagram (s.queued w)
  behind : ∀ w, ∀ k ∈ s.queued w, ∀ p, s.parsed v k = some p → p.Later → s.parked p.context = []

private theorem step_packets (e : DispatchEvent) : (dispatchStep v s e).packets = s.packets ++
    match e with
    | .submit _ _ buffer => [buffer]
    | _ => [] := by
  cases e with
  | submit => rfl
  | take worker =>
    rw [List.append_nil]
    simp only [dispatchStep]
    split <;> rfl
  | release slot =>
    rw [List.append_nil]
    simp only [dispatchStep]
    split <;> rfl
  | expire => rw [List.append_nil]; rfl
  | stop => rw [List.append_nil]; rfl

/-- Only a submission brings a packet. -/
private theorem exists_submit {e : DispatchEvent} {p : FlowPacket}
    (hn : (dispatchStep v s e).parsed v s.packets.length = some p) :
    ∃ opened now buffer, e = .submit opened now buffer ∧ classify v buffer = some p := by
  have hp := step_packets (v := v) (s := s) e
  have hlt := lt_of_parsed hn
  cases e with
  | submit opened now buffer =>
    refine ⟨opened, now, buffer, rfl, ?_⟩
    unfold parsed at hn
    rw [hp] at hn
    simpa using hn
  | _ =>
    rw [hp, List.append_nil] at hlt
    exact absurd hlt (lt_irrefl _)

/-- A later fragment that is queued ahead of parked ones overtakes them. -/
private theorem overtakes_of_flushed (hinv : s.Inv c) {e : DispatchEvent} {p : FlowPacket}
    (hn : (dispatchStep v s e).parsed v s.packets.length = some p) (hl : p.Later)
    (hk : ((dispatchStep v s e).d.fragments p.context).key = p.fragmentKey)
    (hd : (dispatchStep v s e).now < ((dispatchStep v s e).d.fragments p.context).deadline)
    (h1 : (s.d.fragments p.context).resolved = 1) (hst : (s.d.takeSlot false).isSome)
    (hp : s.parked p.context ≠ []) : s.Overtakes v e := by
  obtain ⟨opened, now, buffer, rfl, hcl⟩ := exists_submit hn
  have hkept := (Stepped.step (v := v) hinv (.submit opened now buffer)).kept p.context
  have hu := hinv.used p.context h1
  refine ⟨p, hcl, hl, h1, (hkept.key hu).symm.trans hk, ?_, hp, hst⟩
  rw [hkept.deadline hu] at hd
  exact hd

/-- A call that lets no fragment overtake keeps the later fragments in order. -/
theorem Queues.step (h : s.Queues v) (hsort : s.Sorted v) (hinv : s.Inv c) {e : DispatchEvent}
    (he : ¬s.Overtakes v e) : (dispatchStep v s e).Queues v := by
  have hs := Stepped.step (v := v) hinv e
  have hover := fun p => overtakes_of_flushed (v := v) (p := p) hinv (e := e)
  generalize dispatchStep v s e = s' at *
  obtain ⟨l, hpk⟩ := hs.packets
  have horder := fun w => hsort.inOrder_mono hs (h.in_order w)
  -- a later fragment queued before leaves nothing parked in its context
  have hbehind : ∀ w, ∀ k ∈ s.queued w, ∀ p, s'.parsed v k = some p → p.Later → s.parked p.context = [] := by
    intro w k hk p hp hl
    rw [parsed_append hpk (hsort.queued_lt hk)] at hp
    exact h.behind w k hk p hp hl
  cases hs.effect with
  | still hf hq hp =>
    refine ⟨fun w => hq w ▸ horder w, fun w k hk p hpp hl => ?_⟩
    rcases hp p.context with he | he
    · rw [he]
      exact hbehind w k (hq w ▸ hk) p hpp hl
    · exact he
  | parked p hn hl hu hk hr hd hq hp ho =>
    refine ⟨fun w => hq w ▸ horder w, fun w k hkw r hrp hrl => ?_⟩
    rw [hq] at hkw
    by_cases hi : r.context = p.context
    · -- the context of a queued fragment is resolved
      obtain ⟨r', hr', hroute⟩ := hsort.routed_mono hs hkw
      obtain rfl := Option.some.inj (hrp.symm.trans hr')
      have := (hroute.queue hrl.1).1
      rw [hi] at this
      exact absurd hr this
    · rw [ho _ hi]
      exact hbehind w k hkw r hrp hrl
  | queued p hn hf q hh hq ho hp =>
    refine ⟨fun w => ?_, fun w k hkw r hrp hrl => ?_⟩
    · by_cases hw : w = q
      · subst hw
        exact hq ▸ hsort.inOrder_append (horder w)
      · exact ho w hw ▸ horder w
    · rw [hp]
      by_cases hw : w = q
      · subst hw
        rw [hq] at hkw
        rcases List.mem_append.mp hkw with hkw | hkw
        · exact hbehind w k hkw r hrp hrl
        · rw [List.mem_singleton.mp hkw] at hrp
          obtain rfl := Option.some.inj (hn.symm.trans hrp)
          have := hrl.1
          rw [hf] at this
          cases this
      · exact hbehind w k (ho w hw ▸ hkw) r hrp hrl
  | flushed p hn hf q hu hk hr hqe hd hr2 h1 h0 hst hq ho hp hpo =>
    -- a later fragment finds nothing parked
    have hempty : p.Later → s.parked p.context = [] := by
      intro hl
      by_contra hne
      exact he (hover p hn hl hk hd (h0 hl.2) hst hne)
    have hctx : ∀ k ∈ s.parked p.context, ∀ r, s'.parsed v k = some r → r.context = p.context := by
      intro k hkp r hr
      obtain ⟨r', hw⟩ := hsort.waits_mono hs hkp
      obtain rfl := Option.some.inj (hr.symm.trans hw.parsed)
      exact hw.context
    refine ⟨fun w => ?_, fun w k hkw r hrp hrl => ?_⟩
    · by_cases hw : w = q
      · subst hw
        rw [hq]
        refine hsort.inOrder_flush (horder w) fun a b ha hb p' q' hp' hq' hR => ?_
        have hb' := hctx b hb q' hq'
        have ha' : p'.context = q'.context := by
          obtain ⟨_, _, hca⟩ := Option.bind_eq_some_iff.mp hp'
          obtain ⟨_, _, hcb⟩ := Option.bind_eq_some_iff.mp hq'
          exact context_eq hca hcb hR.1.1 hR.2.1.1 hR.2.2
        have hnil : s.parked p.context = [] := by
          rcases List.mem_append.mp ha with ha | ha
          · rw [← hb', ← ha']
            exact hbehind w a ha p' hp' hR.1
          · rw [List.mem_singleton.mp ha] at hp'
            obtain rfl := Option.some.inj (hn.symm.trans hp')
            exact hempty hR.1
        rw [hnil] at hb
        exact absurd hb List.not_mem_nil
      · exact ho w hw ▸ horder w
    · by_cases hi : r.context = p.context
      · rw [hi, hp]
      · rw [hpo _ hi]
        by_cases hw : w = q
        · subst hw
          rw [hq] at hkw
          rcases List.mem_append.mp hkw with hkw | hkw
          · exact hbehind w k hkw r hrp hrl
          · rcases List.mem_cons.mp hkw with rfl | hkw
            · obtain rfl := Option.some.inj (hn.symm.trans hrp)
              exact absurd rfl hi
            · exact absurd (hctx k hkw r hrp) hi
        · exact hbehind w k (ho w hw ▸ hkw) r hrp hrl

private theorem settle_freeCount (d : Dispatch) (slot queue : Nat) (fragment : Option Nat) :
    (d.settle slot queue fragment).freeCount = d.freeCount := by
  cases fragment with
  | none => rfl
  | some i =>
    unfold Dispatch.settle
    simp only
    split
    · rfl
    · obtain ⟨_, _, _, h⟩ := (d.queueLocked slot queue).flush_frame i queue
      rw [h]
      rfl

/-- A fragment that overtakes does get its slot. -/
private theorem freeCount_of_overtakes (hinv : s.Inv c) {opened now : Nat} {buffer : List Byte}
    (he : s.Overtakes v (.submit opened now buffer)) :
    (dispatchStep v s (.submit opened now buffer)).d.freeCount + 1 = s.d.freeCount := by
  obtain ⟨p, hcl, hl, hr, hk, hd, -, hst⟩ := he
  have hu := hinv.used p.context hr
  have hsetup : (s.d.fragments p.context).setup p.fragmentKey opened = s.d.fragments p.context := if_pos hu
  have hgate : ∀ q, (s.d.fragments p.context).gate p q now =
      (s.d.fragments p.context, some (s.d.fragments p.context).queue) := by
    intro q
    have hn : ¬(s.d.fragments p.context).deadline ≤ now := by omega
    simp [FragmentEntry.gate, hk, hr, hn, hl.2]
  obtain ⟨flowQueues, nextQueue, hfr⟩ := s.d.flowQueue_frame p
  have hpos : s.d.freeCount ≠ 0 := by
    intro h0
    simp [Dispatch.takeSlot, h0] at hst
  have hspend : ∀ d' : Dispatch, d'.takeSlot false = s.d.takeSlot false →
      d'.fragments p.context = s.d.fragments p.context → ∀ q,
      (d'.admitPacket v buffer (some p.context) q).freeCount = d'.freeCount - 1 := by
    intro d' ht hf q
    have hw : d'.waits (some p.context) = false := by simp [Dispatch.waits, hf, hr]
    obtain ⟨⟨slot, pool, token⟩, hs⟩ := Option.isSome_iff_exists.mp hst
    unfold Dispatch.admitPacket
    rw [hw, ht, hs]
    exact settle_freeCount _ _ _ _
  simp only [dispatchStep, Dispatch.submit, hcl, Dispatch.submitLocked, hfr, if_pos hl.1, hsetup, hgate]
  refine (congrArg (· + 1) (hspend _ ?_ ?_ _)).trans (Nat.sub_add_cancel (Nat.one_le_iff_ne_zero.mpr hpos))
  · rfl
  · exact Function.update_self _ _ _

/-- A fragment that overtakes is queued before the packets parked before it. -/
private theorem overtakes_breaks (hsort : s.Sorted v) (hinv : s.Inv c) {e : DispatchEvent}
    (he : s.Overtakes v e) :
    ∃ w, ¬(dispatchStep v s e).InOrder v SameDatagram ((dispatchStep v s e).queued w) := by
  cases e with
  | submit opened now buffer =>
    have hfc := freeCount_of_overtakes hinv he
    obtain ⟨p, hcl, hl, hr, hk, -, hne, -⟩ := he
    have hs := Stepped.step (v := v) hinv (.submit opened now buffer)
    have hpk := step_packets (v := v) (s := s) (.submit opened now buffer)
    simp only at hpk
    generalize dispatchStep v s (.submit opened now buffer) = s' at *
    have hnew : s'.parsed v s.packets.length = some p := by simpa [parsed, hpk] using hcl
    cases hs.effect with
    | still hf =>
      rcases hf with hf | hf
      · rw [hf] at hpk
        simp at hpk
      · omega
    | parked p' hn' hl' _ _ hr' =>
      obtain rfl := Option.some.inj (hnew.symm.trans hn')
      exact absurd hr' ((hs.kept _).named (by omega)).1
    | queued p' hn' hf =>
      obtain rfl := Option.some.inj (hnew.symm.trans hn')
      have := hl.1
      rw [hf] at this
      cases this
    | flushed p' hn' hf q hu hk' hr' hqe hd hr2 h1 h0 hst hq ho hp hpo =>
      obtain rfl := Option.some.inj (hnew.symm.trans hn')
      refine ⟨q, fun hord => ?_⟩
      obtain ⟨b, hb⟩ := List.exists_mem_of_ne_nil _ hne
      obtain ⟨r, hw⟩ := hsort.waits_mono hs hb
      rw [hq, List.append_cons] at hord
      have hab := (List.pairwise_append.mp hord).2.2 s.packets.length (by simp) b hb p r hnew hw.parsed
        ⟨hl, hw.later, hk'.symm.trans hw.key⟩
      exact absurd (hsort.parked_lt hb) (not_lt.mpr hab.le)
  | _ => exact he.elim

/-! ### Expired contexts -/

/-- The context takes and gives out no more fragments. -/
def Dead (s : Dispatching) (i : Nat) : Prop :=
  (s.d.fragments i).resolved = 2 ∨ ((s.d.fragments i).used ∧ (s.d.fragments i).deadline ≤ s.now)

/-- The clock never goes back. -/
def OnTime (s : Dispatching) : DispatchEvent → Prop
  | .submit opened now _ => s.now ≤ opened ∧ opened ≤ now
  | .expire now => s.now ≤ now
  | _ => True

/-- The packet `k` is queued nowhere, and parked at most in a context that is dead. -/
structure Lost (s : Dispatching) (k : Nat) : Prop where
  old : k < s.packets.length
  queued : ∀ w, k ∉ s.queued w
  parked : ∀ i, k ∈ s.parked i → s.Dead i

private theorem now_mono {e : DispatchEvent} (he : s.OnTime e) : s.now ≤ (dispatchStep v s e).now := by
  cases e with
  | submit opened now buffer => exact he.1.trans he.2
  | take worker =>
    simp only [dispatchStep]
    split <;> exact le_rfl
  | release slot =>
    simp only [dispatchStep]
    split <;> exact le_rfl
  | expire now => exact he
  | stop => exact le_rfl

theorem Dead.mono (hs : Stepped v s s') (hn : s.now ≤ s'.now) {i : Nat} (h : s.Dead i) : s'.Dead i := by
  rcases h with h | ⟨hu, hd⟩
  · exact .inl ((hs.kept i).closed h)
  · exact .inr ⟨(hs.kept i).used hu, by rw [(hs.kept i).deadline hu]; omega⟩

theorem Lost.step (h : s.Lost k) (hinv : s.Inv c) {e : DispatchEvent} (he : s.OnTime e) :
    (dispatchStep v s e).Lost k := by
  have hs := Stepped.step (v := v) hinv e
  have hn := now_mono (v := v) he
  generalize dispatchStep v s e = s' at *
  obtain ⟨l, hpk⟩ := hs.packets
  have hold : k < s'.packets.length := by
    have := h.old
    rw [hpk, List.length_append]
    omega
  have hne := h.old.ne
  cases hs.effect with
  | still hf hq hp =>
    refine ⟨hold, fun w => hq w ▸ h.queued w, fun i hi => ?_⟩
    rcases hp i with he | he <;> rw [he] at hi
    · exact (h.parked i hi).mono hs hn
    · exact absurd hi List.not_mem_nil
  | parked p _ _ _ _ _ _ hq hp ho =>
    refine ⟨hold, fun w => hq w ▸ h.queued w, fun i hi => ?_⟩
    by_cases hip : i = p.context
    · subst hip
      rw [hp] at hi
      rcases List.mem_append.mp hi with hi | hi
      · exact (h.parked _ hi).mono hs hn
      · exact absurd (List.mem_singleton.mp hi) hne
    · exact (h.parked i (ho i hip ▸ hi)).mono hs hn
  | queued p _ _ q _ hq ho hp =>
    refine ⟨hold, fun w => ?_, fun i hi => (h.parked i (hp i ▸ hi)).mono hs hn⟩
    by_cases hw : w = q
    · subst hw
      rw [hq]
      simp only [List.mem_append, List.mem_singleton, not_or]
      exact ⟨h.queued w, hne⟩
    · exact ho w hw ▸ h.queued w
  | flushed p _ _ q hu _ _ _ hd hr2 _ _ _ hq ho hp hpo =>
    -- the context that is flushed is alive
    have halive : k ∉ s.parked p.context := by
      intro hk
      rcases h.parked _ hk with h2 | ⟨hu, hdl⟩
      · exact hr2 h2
      · rw [(hs.kept _).deadline hu] at hd
        omega
    refine ⟨hold, fun w => ?_, fun i hi => ?_⟩
    · by_cases hw : w = q
      · subst hw
        rw [hq]
        simp only [List.mem_append, List.mem_cons, not_or]
        exact ⟨h.queued w, hne, halive⟩
      · exact ho w hw ▸ h.queued w
    · by_cases hip : i = p.context
      · subst hip
        rw [hp] at hi
        exact absurd hi List.not_mem_nil
      · exact (h.parked i (hpo i hip ▸ hi)).mono hs hn

private theorem Sorted.lost (h : s.Sorted v) {i k : Nat} (hk : k ∈ s.parked i) (hd : s.Dead i) : s.Lost k :=
  ⟨h.parked_lt hk, h.apart i k hk, fun _ hj => h.context_unique hk hj ▸ hd⟩

/-! ### Runs -/

/-- The packets of a flow bucket are queued for one worker, in the order of their submission; the fragments of a
datagram are queued where its first fragment goes. -/
structure Affinity (v : Nat) (s : Dispatching) : Prop where
  one_queue : ∀ w w' a b p q, a ∈ s.queued w → b ∈ s.queued w' → s.parsed v a = some p →
    s.parsed v b = some q → p.ByFlow → q.ByFlow → p.bucket = q.bucket → w = w'
  flow_order : ∀ w, s.InOrder v (fun p q => p.ByFlow ∧ q.ByFlow ∧ p.bucket = q.bucket) (s.queued w)
  named : ∀ w a p, a ∈ s.queued w → s.parsed v a = some p → p.fragmented → s.Named v p.fragmentKey w
  with_first : ∀ w w' a b p q, a ∈ s.queued w → b ∈ s.queued w' → s.parsed v a = some p →
    s.parsed v b = some q → p.fragmented → q.fragmented → p.fragmentKey = q.fragmentKey → w = w'

private theorem Sorted.affinity (h : s.Sorted v) : s.Affinity v where
  one_queue w w' a b p q ha hb hp hq hpf hqf hbk := by
    obtain ⟨p', hp', hr⟩ := h.routed w a ha
    obtain ⟨q', hq', hr'⟩ := h.routed w' b hb
    obtain rfl := Option.some.inj (hp.symm.trans hp')
    obtain rfl := Option.some.inj (hq.symm.trans hq')
    have h1 := hr.flow hpf
    have h2 := hr'.flow hqf
    rw [hbk, h2] at h1
    omega
  flow_order w := (h.flow_order w).imp fun hab p q hp hq hR => hab p q hp hq ⟨hR.1, hR.2.1⟩
  named w a p ha hp hf := by
    obtain ⟨p', hp', hr⟩ := h.routed w a ha
    obtain rfl := Option.some.inj (hp.symm.trans hp')
    exact hr.named hf
  with_first w w' a b p q ha hb hp hq hpf hqf hk := by
    obtain ⟨p', hp', hr⟩ := h.routed w a ha
    obtain ⟨q', hq', hr'⟩ := h.routed w' b hb
    obtain rfl := Option.some.inj (hp.symm.trans hp')
    obtain rfl := Option.some.inj (hq.symm.trans hq')
    obtain ⟨_, _, hca⟩ := Option.bind_eq_some_iff.mp hp
    obtain ⟨_, _, hcb⟩ := Option.bind_eq_some_iff.mp hq
    rw [← (hr.queue hpf).2, ← (hr'.queue hqf).2, context_eq hca hcb hpf hqf hk]

theorem Sorted.start {d : Dispatch} {workers : Nat} (hd : dispatchInit workers = .ok d) :
    (Dispatching.start d).Sorted v := by
  have h := Inv.start hd
  obtain ⟨-, -, -, hf⟩ := Dispatch.init_spec hd
  have hq : ∀ w, (Dispatching.start d).queued w = [] := fun w => by rw [queued_eq h]; rfl
  have hp : ∀ i, (Dispatching.start d).parked i = [] := fun i => by rw [parked_eq h]; rfl
  refine ⟨fun w k hk => ?_, fun i k hk => ?_, fun i => ?_, fun i k hk => ?_, fun i hi => ?_, fun w => ?_⟩
  · simp [hq] at hk
  · simp [hp] at hk
  · simp [hp]
  · simp [hp] at hk
  · simp [Dispatching.start, hf] at hi
  · rw [hq]
    exact .nil

theorem Sorted.run (h : s.Sorted v) (hinv : s.Inv c) (es : List DispatchEvent) :
    (∃ c', (Run.run (dispatchStep v) s es).Inv c') ∧ (Run.run (dispatchStep v) s es).Sorted v := by
  induction es generalizing s c with
  | nil => exact ⟨⟨c, hinv⟩, h⟩
  | cons e es ih =>
    obtain ⟨c', hinv'⟩ := hinv.step v e
    exact ih (h.step (.step hinv e) hinv.used) hinv'

theorem Lost.run (h : s.Lost k) (hinv : s.Inv c) {es : List DispatchEvent}
    (ht : Run.Along (dispatchStep v) OnTime s es) : (Run.run (dispatchStep v) s es).Lost k := by
  induction es generalizing s c with
  | nil => exact h
  | cons e es ih =>
    obtain ⟨c', hinv'⟩ := hinv.step v e
    exact ih (h.step hinv ht.1) hinv' ht.2

/-- The later fragments stay in order as long as none overtakes, and no longer. -/
private theorem Sorted.in_order_iff (h : s.Sorted v) (hq : s.Queues v) (hinv : s.Inv c) (es : List DispatchEvent) :
    Run.Along (dispatchStep v) (fun s e => ¬s.Overtakes v e) s es ↔
      ∀ es₁ es₂, es = es₁ ++ es₂ → ∀ w, (Run.run (dispatchStep v) s es₁).InOrder v SameDatagram
        ((Run.run (dispatchStep v) s es₁).queued w) := by
  induction es generalizing s c with
  | nil =>
    refine ⟨fun _ es₁ es₂ he w => ?_, fun _ => trivial⟩
    obtain ⟨rfl, -⟩ := List.append_eq_nil_iff.mp he.symm
    exact hq.in_order w
  | cons e es ih =>
    obtain ⟨c', hinv'⟩ := hinv.step v e
    have h' := h.step (.step hinv e) hinv.used
    constructor
    · rintro ⟨he, ht⟩ es₁ es₂ hes w
      cases es₁ with
      | nil => exact hq.in_order w
      | cons e' es₁ =>
        obtain ⟨rfl, hes'⟩ := List.cons.inj hes
        exact (ih h' (hq.step h hinv he) hinv').mp ht es₁ es₂ hes' w
    · intro hall
      have he : ¬s.Overtakes v e := by
        intro he
        obtain ⟨w, hw⟩ := overtakes_breaks h hinv he
        exact hw (hall [e] es rfl w)
      exact ⟨he, (ih h' (hq.step h hinv he) hinv').mpr fun es₁ es₂ hes w => hall (e :: es₁) es₂ (by rw [hes]; rfl) w⟩

end Dispatching

/-- In every run the packets of a flow bucket reach one worker in the order of their submission, the fragments of a
datagram go where its first fragment goes, and a packet parked in a dead context is never queued.  The later fragments
of the datagrams stay in order in every state reached exactly when no call lets one overtake. -/
theorem dispatch_order_run {d : Dispatch} {workers : Nat} (hd : dispatchInit workers = .ok d) (v : Nat)
    (es : List DispatchEvent) :
    (Run.run (dispatchStep v) (.start d) es).Affinity v ∧
    (∀ es', Run.Along (dispatchStep v) Dispatching.OnTime (Run.run (dispatchStep v) (.start d) es) es' →
      ∀ i, (Run.run (dispatchStep v) (.start d) es).Dead i →
      ∀ k ∈ (Run.run (dispatchStep v) (.start d) es).parked i,
      ∀ w, k ∉ (Run.run (dispatchStep v) (.start d) (es ++ es')).queued w) ∧
    (Run.Along (dispatchStep v) (fun s e => ¬s.Overtakes v e) (.start d) es ↔
      ∀ es₁ es₂, es = es₁ ++ es₂ → ∀ w,
        (Run.run (dispatchStep v) (.start d) es₁).InOrder v Dispatching.SameDatagram
          ((Run.run (dispatchStep v) (.start d) es₁).queued w)) := by
  have hinv := Dispatching.Inv.start hd
  have hs := Dispatching.Sorted.start (v := v) hd
  obtain ⟨⟨c, hc⟩, hrun⟩ := hs.run hinv es
  refine ⟨hrun.affinity, fun es' ht i hi k hk w => ?_, ?_⟩
  · rw [Run.run_append]
    exact ((hrun.lost hk hi).run hc ht).queued w
  · refine hs.in_order_iff ⟨fun w => ?_, fun w k hk => ?_⟩ hinv es
    · have : (Dispatching.start d).queued w = [] := by rw [Dispatching.queued_eq hinv]; rfl
      rw [this]
      exact .nil
    · have : (Dispatching.start d).queued w = [] := by rw [Dispatching.queued_eq hinv]; rfl
      simp [this] at hk

theorem dispatch_order_run_parked : ∃ d, dispatchInit 2 = .ok d ∧
    let s := Run.run (dispatchStep 0) (.start d) parkedRun
    s.Affinity 0 ∧ s.took = [(0, 1), (0, 0)] := by
  obtain ⟨d, hd⟩ := Dispatch.exists_init (by decide : 0 < 2) (by decide)
  exact ⟨d, hd, (dispatch_order_run hd 0 parkedRun).1, (parkedRun_record hd).2.1⟩

/-! ### A fragment that overtakes -/

/-- A packet without ports, to fill the dispatcher. -/
def fillPacket : List Byte := [0x45, 0, 0, 20, 0, 1, 0, 0, 64, 47, 0, 0, 192, 0, 0, 1, 192, 0, 0, 2]

/-- The key of that datagram. -/
def fragmentedKey : List Byte :=
  [4, 17, 192, 0, 0, 1, 0, 0, 0, 0, 0, 0, 0, 0, 0, 0, 0, 0, 192, 0, 0, 2, 0, 0, 0, 0, 0, 0, 0, 0, 0, 0, 0, 0, 0, 44,
      0, 0, 0, 0]

/-- The second fragment is parked, other packets fill the dispatcher, so the first fragment is dropped; a worker gives
one slot back. -/
def fillingRun : List DispatchEvent :=
  .submit 100 100 (fragmentPacket 0x20 2) :: (List.replicate 511 (.submit 100 100 fillPacket) ++
    [.submit 100 100 (fragmentPacket 0x20 0), .take 0, .release 510])

/-- Then the third fragment comes. -/
def overtakingRun : List DispatchEvent := fillingRun ++ [.submit 100 100 (fragmentPacket 0 4)]

/-- The dispatcher after the second fragment and `n` of the other packets. -/
structure Filled (n : Nat) (d : Dispatch) : Prop where
  le : n ≤ 511
  workers : d.workers = 1
  stop : d.stop = false
  stopping : d.pool.stopping = false
  count : d.pool.count = dispatchFrames
  identity : d.pool.identity = 1
  freeCount : d.freeCount = 511 - n
  freeSlots : d.freeSlots = id
  frames : ∀ k < 511 - n, d.pool.frames k = ⟨true, recvBufSize, 0, 0, 0, .free⟩
  taken : 0 < n → (d.pool.frames 510).state = .received ∧ (d.pool.frames 510).generation = 1 ∧ d.tokens 510 =
      ⟨510, 1, 1⟩
  head : d.head 0 = 0
  tail : d.tail 0 = BitVec.ofNat 32 n
  counts : d.count 0 = n
  queue : 0 < n → d.queues 0 0 = 510
  fragment : d.fragments 629 = ⟨fragmentedKey, true, 0, 0, 1, some 511, some 511, 130⟩

private theorem classify_fill :
    (classify 0 fillPacket).map (fun p => (p.fragmented, p.transport)) = some (false, false) := by
  decide +kernel

/-- What the classifier says of a fragment of the datagram. -/
private theorem classify_fragment (flags offset : Byte) (first transport : Bool)
    (h : (classify 0 (fragmentPacket flags offset)).map
      (fun p => (p.fragmented, p.first, p.transport, p.fragmentKey, p.context)) =
        some (true, first, transport, fragmentedKey, 629)) :
    ∃ p, classify 0 (fragmentPacket flags offset) = some p ∧ p.fragmented = true ∧ p.first = first ∧
      p.transport = transport ∧ p.fragmentKey = fragmentedKey ∧ p.context = 629 := by
  obtain ⟨p, hcl, hp⟩ := Option.map_eq_some_iff.mp h
  simp only [Prod.mk.injEq] at hp
  exact ⟨p, hcl, hp⟩

private theorem filled_zero {d : Dispatch} (hd : dispatchInit 1 = .ok d) :
    Filled 0 (d.submit 0 100 100 (fragmentPacket 0x20 2)) := by
  unfold dispatchInit at hd
  rw [if_neg (by decide)] at hd
  split at hd
  · cases hd
  rename_i pool hpool
  obtain rfl := Except.ok.inj hd
  obtain ⟨p, hcl, hf, h1, ht, hk, hc⟩ := classify_fragment 0x20 2 false false (by decide +kernel)
  unfold PacketFramePool.init at hpool
  split at hpool
  · cases hpool
  split at hpool
  · cases hpool
  obtain rfl := Except.ok.inj hpool
  simp only [Dispatch.submit, hcl, Dispatch.submitLocked, Dispatch.flowQueue, ht, hf, hc, hk,
    FragmentEntry.setup, FragmentEntry.gate, h1]
  simp [Dispatch.admitPacket, Dispatch.waits, Dispatch.takeSlot, dispatchFrames, PacketFramePool.acquire,
      Dispatch.store,
      Dispatch.settle, Dispatch.hold, PacketFramePool.setFrame]
  constructor <;> simp [dispatchFrames]
  intro k hk
  rw [Function.update_of_ne (by omega)]

theorem Filled.succ {n : Nat} {d : Dispatch} (h : Filled n d) (hn : n < 511) :
    Filled (n + 1) (d.submit 0 100 100 fillPacket) := by
  obtain ⟨p, hcl, hp⟩ := Option.map_eq_some_iff.mp classify_fill
  simp only [Prod.mk.injEq] at hp
  obtain ⟨hf, ht⟩ := hp
  have hfree := h.frames (510 - n) (by omega)
  have hcount : 511 - n - 1 = 510 - n := by omega
  have hne : 511 - n ≠ 0 := by omega
  have hlt : ¬dispatchFrames ≤ 510 - n := by
    unfold dispatchFrames
    omega
  have htail : (BitVec.ofNat 32 n).toNat % dispatchFrames = n := by
    simp only [BitVec.toNat_ofNat, dispatchFrames]
    omega
  have hd : d.submit 0 100 100 fillPacket = (d.store 0 (510 - n) (d.pool.setFrame (510 - n)
      ⟨true, recvBufSize, 0, 0, 1, .received⟩)
      ⟨510 - n, 1, 1⟩ fillPacket).queueLocked (510 - n) 0 := by
    simp only [Dispatch.submit, hcl, Dispatch.submitLocked, Dispatch.flowQueue, ht, hf, Bool.false_eq_true, if_false,
      Dispatch.admitPacket, Dispatch.waits, Dispatch.takeSlot, h.stop, h.freeCount, hne, false_and, or_self,
          PacketFramePool.acquire,
      h.freeSlots, id_eq, hcount, h.count, hlt, h.stopping, hfree, h.identity, ne_eq, not_true_eq_false,
          Dispatch.settle]
    rfl
  rw [hd]
  refine ⟨by omega, h.workers, h.stop, h.stopping, h.count, h.identity, ?_, h.freeSlots, ?_, ?_, h.head, ?_, ?_, ?_,
      h.fragment⟩
  · simp only [Dispatch.queueLocked, Dispatch.store, h.freeCount]
    omega
  · intro k hk
    have hk' : k ≠ 510 - n := by omega
    simp only [Dispatch.queueLocked, Dispatch.store, PacketFramePool.setFrame, Function.update_of_ne hk']
    exact h.frames k (by omega)
  · intro _
    by_cases h0 : n = 0
    · subst h0
      simp [Dispatch.queueLocked, Dispatch.store, PacketFramePool.setFrame]
    · have hne : 510 ≠ 510 - n := by omega
      simp only [Dispatch.queueLocked, Dispatch.store, PacketFramePool.setFrame, Function.update_of_ne hne]
      exact h.taken (by omega)
  · simp [Dispatch.queueLocked, Dispatch.store, h.tail, BitVec.ofNat_add]
  · simp [Dispatch.queueLocked, Dispatch.store, h.counts]
  · intro _
    simp only [Dispatch.queueLocked, Dispatch.store, Function.update_self, h.tail, htail]
    by_cases h0 : n = 0
    · subst h0
      rfl
    · rw [Function.update_of_ne (Ne.symm h0)]
      exact h.queue (by omega)

theorem Filled.fill {d : Dispatch} (h : Filled 0 d) : ∀ n ≤ 511, Filled n
    ((fun d => d.submit 0 100 100 fillPacket)^[n] d) := by
  intro n
  induction n with
  | zero => exact fun _ => h
  | succ n ih =>
    intro hn
    rw [Function.iterate_succ_apply']
    exact (ih (by omega)).succ (by omega)

/-- The first fragment names the queue and is dropped. -/
theorem Filled.named {d : Dispatch} (h : Filled 511 d) : ∃ flowQueues nextQueue drops queue,
    d.submit 0 100 100 (fragmentPacket 0x20 0) = { d with
      flowQueues := flowQueues
      nextQueue := nextQueue
      fragments := Function.update d.fragments 629 ⟨fragmentedKey, true, 1, queue, 1, some 511, some 511, 130⟩
      drops := drops } := by
  obtain ⟨p, hcl, hf, h1, ht, hk, hc⟩ := classify_fragment 0x20 0 true true (by decide +kernel)
  obtain ⟨flowQueues, nextQueue, hfq⟩ := d.flowQueue_frame p
  have hg : ∀ q, (FragmentEntry.setup ⟨fragmentedKey, true, 0, 0, 1, some 511, some 511, 130⟩ fragmentedKey 100).gate
      p q 100 =
      (⟨fragmentedKey, true, 1, q, 1, some 511, some 511, 130⟩, some q) := by
    intro q
    simp [FragmentEntry.setup, FragmentEntry.gate, hk, h1]
  have hnone : ∀ d' : Dispatch, d'.freeCount = 0 → ∀ q, d'.admitPacket 0 (fragmentPacket 0x20 0) (some 629) q =
      d'.drop (fragmentPacket 0x20 0).length := by
    intro d' h0 q
    simp [Dispatch.admitPacket, Dispatch.takeSlot, h0]
  refine ⟨flowQueues, nextQueue, d.drops ++ [(fragmentPacket 0x20 0).length], (d.flowQueue p).2, ?_⟩
  simp only [Dispatch.submit, hcl, Dispatch.submitLocked, hf, if_true, hc, hk, hfq, h.fragment, hg]
  refine (hnone _ ?_ _).trans ?_
  · exact h.freeCount
  · rfl

/-- A worker takes the oldest of the other packets and gives its slot back. -/
private theorem Filled.ready {d d' : Dispatch} (h : Filled 511 d) {flowQueues nextQueue drops fragments}
    (hd : d' = { d with
      flowQueues := flowQueues
      nextQueue := nextQueue
      fragments := fragments
      drops := drops }) : (d'.take 0).2 = some (510, d'.buffer 510) ∧ ((d'.take 0).1.release 510).fragments =
          fragments ∧
      (((d'.take 0).1.release 510).takeSlot false).isSome := by
  obtain ⟨hst, hgen, htok⟩ := h.taken (by decide)
  have hq := h.queue (by decide)
  subst hd
  have hl : d.pool.lookup (d.tokens 510) = .ok (d.pool.frames 510) := by
    rw [htok]
    simp [PacketFramePool.lookup, h.identity, h.count, hgen, dispatchFrames]
  have hslot : (d.tokens 510).slot = 510 := by rw [htok]
  obtain ⟨st, hs, htr⟩ := PacketFramePool.attempt_translating hl hst
  have hfree := PacketFramePool.attempt_free (PacketFramePool.lookup_setFrame
      (g := { d.pool.frames 510 with state := st }) hl rfl) hs
  have htake : Dispatch.take { d with
      flowQueues := flowQueues
      nextQueue := nextQueue
      fragments := fragments
      drops := drops } 0 = ({ d with
      flowQueues := flowQueues
      nextQueue := nextQueue
      fragments := fragments
      drops := drops
      head := Function.update d.head 0 1
      count := Function.update d.count 0 510
      pool := d.pool.setFrame 510 { d.pool.frames 510 with state := st } }, some (510, d.buffer 510)) := by
    have hcell : d.queues 0 ((d.head 0).toNat % dispatchFrames) = 510 := by rw [h.head]; exact hq
    refine (if_neg (show ¬d.count 0 = 0 by rw [h.counts]; decide)).trans ?_
    simp only [hcell, htr, hslot]
    rw [h.counts, h.head]
    rfl
  rw [htake]
  refine ⟨rfl, rfl, ?_⟩
  rw [hslot] at hfree
  simp only [Dispatch.release, Dispatch.freeLocked, Dispatch.takeSlot, hfree, h.freeCount, h.stop, h.freeSlots]
  simp [PacketFramePool.acquire, PacketFramePool.setFrame, h.count, h.stopping, dispatchFrames, hgen]

private theorem iterate_d (s : Dispatching) (n : Nat) :
    ((fun s => dispatchStep 0 s (.submit 100 100 fillPacket))^[n] s).d =
    (fun d => d.submit 0 100 100 fillPacket)^[n] s.d := by
  induction n generalizing s with
  | zero => rfl
  | succ n ih =>
    rw [Function.iterate_succ_apply, ih, Function.iterate_succ_apply]
    rfl

/-- The call is made at this time. -/
def DispatchEvent.At (t : Nat) : DispatchEvent → Prop
  | .submit opened now _ => opened = t ∧ now = t
  | .expire now => now = t
  | _ => True

/-- Calls that are all made at one time are on time. -/
private theorem along_onTime {s : Dispatching} {es : List DispatchEvent} {t : Nat} (hs : s.now ≤ t)
    (he : ∀ e ∈ es, e.At t) :
    Run.Along (dispatchStep 0) Dispatching.OnTime s es := by
  induction es generalizing s with
  | nil => trivial
  | cons e es ih =>
    have hes := fun e' h' => he e' (List.mem_cons_of_mem _ h')
    have ht := he e List.mem_cons_self
    cases e with
    | submit opened now buffer =>
      obtain ⟨rfl, rfl⟩ := ht
      exact ⟨⟨hs, le_rfl⟩, ih le_rfl hes⟩
    | take worker =>
      refine ⟨trivial, ih ?_ hes⟩
      simp only [dispatchStep]
      split <;> exact hs
    | release slot =>
      refine ⟨trivial, ih ?_ hes⟩
      simp only [dispatchStep]
      split <;> exact hs
    | expire now =>
      obtain rfl := ht
      exact ⟨hs, ih le_rfl hes⟩
    | stop => exact ⟨trivial, ih hs hes⟩

/-- The first fragment has named the queue, the second is parked, and a slot is free. -/
private theorem fillingRun_spec {d : Dispatch} (hd : dispatchInit 1 = .ok d) : ∃ queue,
    (Run.run (dispatchStep 0) (.start d) fillingRun).d.fragments 629 =
      ⟨fragmentedKey, true, 1, queue, 1, some 511, some 511, 130⟩ ∧
    ((Run.run (dispatchStep 0) (.start d) fillingRun).d.takeSlot false).isSome := by
  have hfill := (filled_zero hd).fill 511 le_rfl
  unfold fillingRun
  rw [Run.run_cons, Run.run_append, Run.run_replicate]
  generalize hs : (fun s => dispatchStep 0 s (.submit 100 100 fillPacket))^[511]
    (dispatchStep 0 (.start d) (.submit 100 100 (fragmentPacket 0x20 2))) = s
  have hsd : (fun d => d.submit 0 100 100 fillPacket)^[511] (d.submit 0 100 100 (fragmentPacket 0x20 2)) = s.d := by
    rw [← hs, iterate_d]
    rfl
  rw [hsd] at hfill
  obtain ⟨flowQueues, nextQueue, drops, queue, hnamed⟩ := hfill.named
  obtain ⟨htake, hfr, hslot⟩ := hfill.ready hnamed
  rcases ht : (s.d.submit 0 100 100 (fragmentPacket 0x20 0)).take 0 with ⟨d', r⟩
  rw [ht] at htake hfr hslot
  obtain rfl : r = _ := htake
  have hrun : (Run.run (dispatchStep 0) s [.submit 100 100 (fragmentPacket 0x20 0), .take 0, .release 510]).d =
      d'.release 510 := by
    simp only [Run.run_cons, Run.run_nil, dispatchStep, ht, List.mem_cons, true_or, if_true]
  rw [hrun]
  exact ⟨queue, by rw [hfr, Function.update_self], hslot⟩

/-- A run in which the third fragment of a datagram is queued before the second. -/
theorem dispatch_order_overtaken : ∃ d, dispatchInit 1 = .ok d ∧
    Run.Along (dispatchStep 0) Dispatching.OnTime (.start d) overtakingRun ∧
    ∃ w, ¬(Run.run (dispatchStep 0) (.start d) overtakingRun).InOrder 0 Dispatching.SameDatagram
      ((Run.run (dispatchStep 0) (.start d) overtakingRun).queued w) := by
  obtain ⟨d, hd⟩ := Dispatch.exists_init (by decide : 0 < 1) (by decide)
  refine ⟨d, hd, along_onTime (Nat.zero_le 100) ?_, ?_⟩
  · intro e he
    simp only [overtakingRun, fillingRun, List.mem_cons, List.mem_append, List.mem_replicate, List.not_mem_nil,
        or_false] at he
    rcases he with (rfl | ⟨-, rfl⟩ | rfl | rfl | rfl) | rfl <;> simp [DispatchEvent.At]
  · obtain ⟨queue, he, hslot⟩ := fillingRun_spec hd
    obtain ⟨⟨c, hc⟩, hs⟩ := (Dispatching.Sorted.start (v := 0) hd).run (Dispatching.Inv.start hd) fillingRun
    unfold overtakingRun
    rw [Run.run_append]
    generalize Run.run (dispatchStep 0) (.start d) fillingRun = s at *
    rw [Run.run_cons, Run.run_nil]
    refine Dispatching.overtakes_breaks hs hc ?_
    obtain ⟨p, hcl, hf, h1, -, hk, hctx⟩ := classify_fragment 0 4 false false (by decide +kernel)
    refine ⟨p, hcl, ⟨hf, h1⟩, ?_, ?_, ?_, ?_, hslot⟩
    · rw [hctx, he]
    · rw [hctx, he, hk]
    · rw [hctx, he]
      exact (by decide : 100 < 130)
    · simp [Dispatching.parked, Dispatching.content, hctx, he, walk, dispatchFrames]

end Tayga
