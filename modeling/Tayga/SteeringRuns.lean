import Tayga.Lib.Threads
import Tayga.SteeringLaw

/-!
# Steering a stream of packets

The kernel runs the steering program on every packet, on several processors at once, and the maps are what they share.
However the runs interleave, a bucket keeps the queue it was given first, so packets with the same key are all in one
queue.  One after the other, the packets of new buckets go to the queues in turn, for each family apart.
-/

namespace Tayga

open Ebpf Program

/-- A TCP segment. -/
def steeringSample : List Byte :=
  [0x45, 0, 0, 40, 0, 1, 0x40, 0, 64, 6, 0, 0, 192, 0, 2, 1, 198, 51, 100, 2, 0x30, 0x39, 0, 80]

/-- A TCP segment of the other direction. -/
def steeringReply : List Byte :=
  [0x45, 0, 0, 40, 0, 1, 0x40, 0, 64, 6, 0, 0, 198, 51, 100, 2, 192, 0, 2, 1, 0, 80, 0x30, 0x39]

/-! ### The loaded program -/

/-- The maps that a run has created, in order. -/
def createdMaps (t : List (Sigma SteeringOp.Ans)) : List Nat :=
  t.filterMap fun
    | ⟨.mapCreate _, .ok fd⟩ => some fd
    | _ => none

/-- The file descriptors that a run has closed, in order. -/
def closedMaps (t : List (Sigma SteeringOp.Ans)) : List Nat :=
  t.filterMap fun
    | ⟨.close fd, _⟩ => some fd
    | _ => none

/-- **What `steering_program_ext` loads.**  It closes the maps it has created, each of them once, what it returns is a
program it has loaded, and such a program does with every packet what `steer` says. -/
theorem steering_program (e : Endian) (queues : Nat) (flowAware : Bool) {t : List (Sigma SteeringOp.Ans)}
    {r : Except Nat Nat} (h : (steeringProgramExt e queues flowAware).Runs t r) :
    closedMaps t = createdMaps t ∧
      (∀ program, r = .ok program → ∃ code, ⟨.progLoad code, .ok program⟩ ∈ t) ∧
      ∀ code a, ⟨.progLoad code, a⟩ ∈ t → code.length ≤ 512 ∧ ∃ buckets counter,
        ⟨.mapCreate 65536, .ok buckets⟩ ∈ t ∧ ⟨.mapCreate 2, .ok counter⟩ ∈ t ∧
        ∀ (d : List Byte) (entries : Nat → Nat), entries buckets = 65536 → entries counter = 2 → ∀ n, code.length ≤ n →
          run ⟨e.order, d, entries⟩ code n entry = steer e queues flowAware buckets counter d := by
  unfold steeringProgramExt at h
  by_cases hq : queues = 0 ∨ 128 < queues
  · rw [if_pos hq] at h
    obtain ⟨rfl, rfl⟩ := h
    exact ⟨rfl, by simp, by simp⟩
  rw [if_neg hq] at h
  obtain ⟨x, t, rfl, h⟩ := h
  cases x with
  | error err =>
    obtain ⟨rfl, rfl⟩ := h
    exact ⟨rfl, by simp, by simp⟩
  | ok buckets =>
    obtain ⟨x, t, rfl, h⟩ := h
    cases x with
    | error err =>
      obtain ⟨-, t, rfl, rfl, rfl⟩ := h
      exact ⟨rfl, by simp, by simp⟩
    | ok counter =>
      dsimp only at h
      rw [steeringBuilder_eq] at h
      obtain ⟨x, t, rfl, -, t, rfl, -, t, rfl, rfl, rfl⟩ := h
      -- created: `[buckets, counter]`, closed: the same two in the same order
      refine ⟨rfl, fun program hr => ?_, fun code a hmem => ?_⟩
      · subst hr
        exact ⟨_, List.mem_cons_of_mem _ (List.mem_cons_of_mem _ List.mem_cons_self)⟩
      · obtain rfl : code = steeringListing e queues flowAware buckets counter := by
          simp at hmem
          exact hmem.1
        refine ⟨?_, buckets, counter, by simp, by simp, fun d entries hbuckets hcounter n hn => ?_⟩
        · exact length_steeringListing_le e queues flowAware buckets counter
        · exact does_steer (by omega) (by omega) hbuckets hcounter n (by rwa [entry, Nat.zero_add])

theorem steering_program_loaded :
    let code := (steeringBuilder .little 4 true 3 4).code
    let t : List (Sigma SteeringOp.Ans) := [⟨.mapCreate 65536, .ok 3⟩, ⟨.mapCreate 2, .ok 4⟩, ⟨.progLoad code, .ok 5⟩,
      ⟨.close 3, ()⟩, ⟨.close 4, ()⟩]
    (steeringProgramExt .little 4 true).Runs t (.ok 5) ∧ closedMaps t = [3, 4] ∧
      (∃ code, ⟨.progLoad code, .ok 5⟩ ∈ t) ∧ code.length ≤ 512 ∧
      run ⟨Endian.little.order, steeringSample, fun fd => if fd = 3 then 65536 else 2⟩ code 512 entry =
        steer .little 4 true 3 4 steeringSample := by
  intro code t
  have hruns : (steeringProgramExt .little 4 true).Runs t (.ok 5) := by
    refine ⟨.ok 3, _, rfl, .ok 4, _, rfl, ?_⟩
    dsimp only
    rw [if_neg (by rw [steeringBuilder_eq]; decide)]
    exact ⟨.ok 5, _, rfl, (), _, rfl, (), _, rfl, rfl, rfl⟩
  obtain ⟨hclosed, hloaded, hcode⟩ := steering_program .little 4 true hruns
  obtain ⟨hlen, buckets, counter, hbuckets, hcounter, hrun⟩ := hcode code (.ok 5) (by simp [t])
  obtain rfl : buckets = 3 := by simpa [t] using hbuckets
  obtain rfl : counter = 4 := by simpa [t] using hcounter
  exact ⟨hruns, hclosed, hloaded 5 rfl, hlen, hrun steeringSample _ rfl rfl 512 hlen⟩

/-! ### Invocations that interrupt each other -/

/-- A bucket that has an owner keeps it. -/
def Kept (buckets : Nat) (s s' : Maps) : Prop := ∀ k, s buckets k ≠ 0 → s' buckets k = s buckets k

theorem Kept.trans {buckets : Nat} {s s' s'' : Maps} (h : Kept buckets s s') (h' : Kept buckets s' s'') :
    Kept buckets s s'' := by
  intro k hk
  have hs := h k hk
  rw [h' k (by rwa [hs]), hs]

/-- What an invocation relies on and guarantees: owners are queues, and no owner is replaced. -/
def steeringSide (queues buckets : Nat) : Side MemOp MemOp.Ans Maps where
  env := access
  inv s := ∀ k, (s buckets k).toNat ≤ queues
  rely := Kept buckets
  guar := Kept buckets
  rely_refl _ _ _ := rfl
  rely_trans := Kept.trans

section

variable {queues buckets counter : Nat}

/-- The bucket has an owner, and the invocation has chosen its queue. -/
def Owned (buckets bucket : Nat) (a : Halt) (s : Maps) : Prop :=
  s buckets bucket ≠ 0 ∧ a = queueOf (s buckets bucket)

theorem Owned.stable (bucket : Nat) (a : Halt) : (steeringSide queues buckets).Stable (Owned buckets bucket a) := by
  intro s s' hr _ h
  have hkept := hr bucket h.1
  exact ⟨by rw [hkept]; exact h.1, by rw [hkept]; exact h.2⟩

/-- Whoever is first publishes the owner, and the others go by it. -/
private theorem outline_cmpxchg {candidate : BitVec 32} (hpos : candidate ≠ 0) (hle : candidate.toNat ≤ queues)
    (bucket : Nat)
    (s : Maps) : Outline (steeringSide queues buckets) (.call (.cmpxchg buckets bucket 0 candidate) fun old =>
      .done (queueOf (if old = 0 then candidate else old))) (Owned buckets bucket) s := by
  intro s _ hinv
  have hans : ((steeringSide queues buckets).env (.cmpxchg buckets bucket 0 candidate) s).1 = s buckets bucket := rfl
  have hstate : ((steeringSide queues buckets).env (.cmpxchg buckets bucket 0 candidate) s).2 =
      if s buckets bucket = 0 then s.set buckets bucket candidate else s := rfl
  rw [hans, hstate]
  dsimp only
  by_cases hfree : s buckets bucket = 0
  · rw [if_pos hfree, if_pos hfree]
    refine ⟨fun k => ?_, fun k hk => s.set_of_ne _ fun h => hk ?_, .done (Owned.stable bucket _) ?_⟩
    · by_cases hk : k = bucket
      · rw [hk, Maps.set_self]
        exact hle
      · rw [Maps.set_of_ne _ _ fun h => hk h.2]
        exact hinv k
    · rw [h.2, hfree]
    · rw [Owned, Maps.set_self]
      exact ⟨hpos, rfl⟩
  · rw [if_neg hfree, if_neg hfree]
    exact ⟨hinv, fun _ _ => rfl, .done (Owned.stable bucket _) ⟨hfree, rfl⟩⟩

/-- **A bucket without an owner is given one once**, and the invocation goes by the owner that is there. -/
theorem outline_assign (hqueues : 0 < queues) (hmax : queues ≤ 128) (hne : buckets ≠ counter) (family bucket : Nat)
    (s : Maps) : Outline (steeringSide queues buckets) (assign queues buckets counter family bucket)
      (Owned buckets bucket) s := by
  intro s _ hinv
  refine ⟨hinv, fun _ _ => rfl, ?_⟩
  show Outline _ (if s buckets bucket ≠ 0 then _ else _) _ s
  by_cases howner : s buckets bucket ≠ 0
  · rw [if_pos howner]
    exact .done (Owned.stable bucket _) ⟨howner, rfl⟩
  · rw [if_neg howner]
    intro s _ hinv
    have hadd (k : Nat) : (s.set counter family (s counter family + 1)) buckets k = s buckets k :=
      s.set_of_ne _ fun h => hne h.1
    refine ⟨fun k => ?_, fun k _ => hadd k, ?_⟩
    · exact (congrArg BitVec.toNat (hadd k)).trans_le (hinv k)
    · have hlt := Nat.mod_lt (s counter family).toNat hqueues
      exact outline_cmpxchg (candidate_ne_zero hqueues hmax _) ((toNat_candidate hqueues hmax _).trans_le hlt) bucket _

/-! ### All invocations -/

/-- One invocation of the program for each packet, on empty maps. -/
def invocations {T : Type} (e : Endian) (entries : Nat → Nat) (code : List Insn) (packet : T → List Byte) :
    Threads T MemOp MemOp.Ans Halt Maps :=
  ⟨fun _ _ => 0, fun t => Ebpf.run ⟨e.order, packet t, entries⟩ code 512 entry⟩

/-- What an invocation ends with. -/
def Steered (e : Endian) (flowAware : Bool) (buckets : Nat) (d : List Byte) (a : Halt) (s : Maps) : Prop :=
  match (steeringKey flowAware d).map (SteeringKey.bucket e) with
  | none => a = .exit 0
  | some bucket => Owned buckets bucket a s

variable {e : Endian} {flowAware : Bool}

theorem Steered.stable (d : List Byte) (a : Halt) :
    (steeringSide queues buckets).Stable (Steered e flowAware buckets d a) := by
  unfold Steered
  cases (steeringKey flowAware d).map (SteeringKey.bucket e) with
  | none => exact fun _ _ _ _ h => h
  | some bucket => exact Owned.stable bucket a

private theorem outline_steer (hqueues : 0 < queues) (hmax : queues ≤ 128) (hne : buckets ≠ counter) (d : List Byte)
    (s : Maps) : Outline (steeringSide queues buckets) (steer e queues flowAware buckets counter d)
      (Steered e flowAware buckets d) s := by
  unfold steer Steered
  cases steeringKey flowAware d with
  | none => exact .done (fun _ _ _ _ h => h) rfl
  | some k => exact outline_assign hqueues hmax hne _ _ s

private theorem within_steer (d : List Byte) : (steer e queues flowAware buckets counter d).Within 3 := by
  unfold steer
  cases steeringKey flowAware d with
  | none => exact .done _ _
  | some k =>
    intro owner
    show (if owner ≠ 0 then _ else _ : Invocation Halt).Within 2
    by_cases howner : owner ≠ 0
    · rw [if_pos howner]
      exact .done _ _
    · rw [if_neg howner]
      exact fun n old => .done _ _

variable {T : Type} {entries : Nat → Nat}

private theorem invocations_program (hqueues : 0 < queues) (hmax : queues ≤ 128) (hbuckets : entries buckets = 65536)
    (hcounter : entries counter = 2) (packet : T → List Byte) (t : T) :
    (invocations e entries (steeringBuilder e queues flowAware buckets counter).code packet).program t =
      steer e queues flowAware buckets counter (packet t) := by
  have hdoes := @does_steer (packet t) e entries queues buckets counter flowAware hqueues hmax hbuckets hcounter
  have hlen := length_steeringListing_le e queues flowAware buckets counter
  rw [← steeringBuilder_code] at hdoes hlen
  exact hdoes 512 (hlen.trans (Nat.le_add_left 512 entry.pc))

/-- The verdict is a queue. -/
theorem Steered.queue {d : List Byte} {a : Halt} {s : Maps} (h : Steered e flowAware buckets d a s)
    (hqueues : 0 < queues) (hinv : ∀ k, (s buckets k).toNat ≤ queues) :
    ∃ queue < queues, a = .exit (BitVec.ofNat 64 queue) := by
  unfold Steered at h
  cases hk : (steeringKey flowAware d).map (SteeringKey.bucket e) with
  | none =>
    rw [hk] at h
    exact ⟨0, hqueues, h⟩
  | some bucket =>
    rw [hk] at h
    obtain ⟨hpos, rfl⟩ := h
    refine ⟨(s buckets bucket).toNat - 1, ?_, rfl⟩
    have hle := hinv bucket
    omega

/-- The verdict depends on the bucket only. -/
theorem Steered.same {d d' : List Byte} {a b : Halt} {s : Maps} (h : Steered e flowAware buckets d a s)
    (h' : Steered e flowAware buckets d' b s) (hbucket : (steeringKey flowAware d).map (SteeringKey.bucket e) =
      (steeringKey flowAware d').map (SteeringKey.bucket e)) : a = b := by
  unfold Steered at h h'
  rw [hbucket] at h
  cases hk : (steeringKey flowAware d').map (SteeringKey.bucket e) with
  | none =>
    rw [hk] at h h'
    rw [h, h']
  | some bucket =>
    rw [hk] at h h'
    rw [h.2, h'.2]

/-- Packets between the same two hosts, each with the header of the other direction. -/
def Opposite (d d' : List Byte) : Prop :=
  version d = 4 ∧ version d' = 4 ∧ 20 ≤ d.length ∧ 20 ≤ d'.length ∧
      (Ip4.ofBytes d).src = (Ip4.ofBytes d').dest ∧ (Ip4.ofBytes d).dest = (Ip4.ofBytes d').src ∨
    version d = 6 ∧ version d' = 6 ∧ 40 ≤ d.length ∧ 40 ≤ d'.length ∧
      (Ip6.ofBytes d).src = (Ip6.ofBytes d').dest ∧ (Ip6.ofBytes d).dest = (Ip6.ofBytes d').src

/-- Without the ports, both directions have one key up to the order of the addresses. -/
private theorem steeringKey_opposite {d d' : List Byte} (h : Opposite d d') :
    steeringKey false d = (steeringKey false d').map SteeringKey.reverse := by
  rcases h with ⟨h4, h4', hd, hd', hsrc, hdest⟩ | ⟨h6, h6', hd, hd', hsrc, hdest⟩
  · have hkey {d : List Byte} (h4 : version d = 4) (hd : 20 ≤ d.length) :
        steeringKey false d = some (.ip4 (Ip4.ofBytes d).src (Ip4.ofBytes d).dest none) := by
      rw [steeringKey, if_neg (by omega), if_neg (by rw [h4]; decide), if_pos h4]
      rfl
    rw [hkey h4 hd, hkey h4' hd', hsrc, hdest]
    rfl
  · have hkey {d : List Byte} (h6 : version d = 6) (hd : 40 ≤ d.length) :
        steeringKey false d = some (.ip6 (Ip6.ofBytes d).src (Ip6.ofBytes d).dest none) := by
      rw [steeringKey, if_neg (by omega), if_pos h6]
      dsimp only
      rw [if_neg (by omega)]
      rfl
    rw [hkey h6 hd, hkey h6' hd', hsrc, hdest]
    rfl

private theorem bucket_opposite {d d' : List Byte} (h : Opposite d d') :
    (steeringKey false d).map (SteeringKey.bucket e) = (steeringKey false d').map (SteeringKey.bucket e) := by
  -- by rewriting, since unfolding `bucket` does not end
  have hcomp : SteeringKey.bucket e ∘ SteeringKey.reverse = SteeringKey.bucket e := by
    funext k
    rw [Function.comp_apply, SteeringKey.bucket_reverse]
  rw [steeringKey_opposite h, Option.map_map, hcomp]

variable [DecidableEq T]

/-- **Steering keeps flows together.**  However the invocations interleave at their accesses to the maps: one that has
made three of them has ended, with one of the queues; packets whose keys fall into the same bucket get the same queue,
and so do, when the ports do not count, the packets of both directions between two hosts; and a bucket keeps its
owner. -/
theorem steering_affinity (hqueues : 0 < queues) (hmax : queues ≤ 128) (hne : buckets ≠ counter)
    (hbuckets : entries buckets = 65536) (hcounter : entries counter = 2) (packet : T → List Byte)
    (schedule : List T) :
    let step := Threads.run fun _ : T => access
    let m := Run.run step
      (invocations e entries (steeringBuilder e queues flowAware buckets counter).code packet) schedule
    (∀ t, 3 ≤ schedule.count t → ∃ a, m.program t = .done a) ∧
      (∀ t a, m.program t = .done a → ∃ queue < queues, a = .exit (BitVec.ofNat 64 queue)) ∧
      (∀ t u a b, m.program t = .done a → m.program u = .done b →
        (steeringKey flowAware (packet t)).map (SteeringKey.bucket e) =
            (steeringKey flowAware (packet u)).map (SteeringKey.bucket e) ∨
          flowAware = false ∧ Opposite (packet t) (packet u) → a = b) ∧
      ∀ later, Kept buckets m.state (Run.run step m later).state := by
  have hprogram := @invocations_program queues buckets counter e flowAware T entries hqueues hmax hbuckets hcounter
    packet
  have hzero : (invocations e entries (steeringBuilder e queues flowAware buckets counter).code packet).state =
      fun _ _ => 0 := rfl
  generalize invocations e entries (steeringBuilder e queues flowAware buckets counter).code packet = m₀ at *
  have hm₀ : Threads.Outlined (fun _ => steeringSide queues buckets)
      (fun t => Steered e flowAware buckets (packet t)) m₀ := by
    refine ⟨fun _ k => ?_, fun t => ?_⟩
    · rw [hzero]
      exact Nat.zero_le _
    · rw [hprogram t]
      exact outline_steer hqueues hmax hne _ _
  intro step m
  have hm : Threads.Outlined (fun _ => steeringSide queues buckets)
      (fun t => Steered e flowAware buckets (packet t)) m :=
    hm₀.runs (fun _ _ _ h => h) (fun _ _ _ _ _ h => h) schedule
  refine ⟨fun t ht => ?_, fun t a ha => (hm.result ha).queue hqueues (hm.inv t), fun t u a b ha hb hkey => ?_,
    fun later => ?_⟩
  · have hwithin := Threads.within_run (fun _ => access) (m := m₀) (t := t) (n := 3)
      (by rw [hprogram t]; exact within_steer _) schedule
    rw [Nat.sub_eq_zero_of_le ht] at hwithin
    exact hwithin.zero
  · rcases hkey with hbucket | ⟨rfl, hopposite⟩
    · exact (hm.result ha).same (hm.result hb) hbucket
    · exact (hm.result ha).same (hm.result hb) (bucket_opposite hopposite)
  · exact hm.guar_runs (fun _ _ _ h => h) (fun _ _ _ _ _ h => h) (R := Kept buckets)
      (fun _ _ _ => rfl) Kept.trans (fun _ _ _ h => h) (fun _ _ _ _ => rfl) later

end

theorem steering_affinity_sample : ∃ a, ∀ t, (Run.run (Threads.run fun _ : Bool => access)
    (invocations .little (fun fd => if fd = 0 then 65536 else 2) (steeringBuilder .little 4 false 0 1).code fun t =>
      if t then steeringSample else steeringReply) [true, false, true, false, false, true]).program t = .done a := by
  obtain ⟨hends, -, hsame, -⟩ := @steering_affinity 4 0 1 .little false Bool (fun fd => if fd = 0 then 65536 else 2) _
    (by decide) (by decide) (by decide) rfl rfl (fun t => if t then steeringSample else steeringReply)
    [true, false, true, false, false, true]
  obtain ⟨a, ha⟩ := hends true (by decide)
  refine ⟨a, fun t => ?_⟩
  obtain ⟨b, hb⟩ := hends t (by cases t <;> decide)
  cases t with
  | true => exact ha
  | false => rwa [hsame true false a b ha hb (.inr ⟨rfl, .inl (by decide)⟩)]

/-! ### One packet after the other -/

section

variable {e : Endian} {queues buckets counter : Nat} {flowAware : Bool} {entries : Nat → Nat}

/-- The buckets with an owner, each with the family it was given in, when a packet follows. -/
def admitBucket (e : Endian) (flowAware : Bool) (l : List (Nat × Nat)) (d : List Byte) : List (Nat × Nat) :=
  match steeringKey flowAware d with
  | none => l
  | some k => if k.bucket e ∈ l.map Prod.snd then l else l ++ [(k.family, k.bucket e)]

/-- How many of these buckets were given in a family. -/
def turn (l : List (Nat × Nat)) (family : Nat) : Nat := (l.map Prod.fst).count family

/-- The program runs on one packet, and nobody interrupts it: the verdict, and the maps. -/
def steerOne (e : Endian) (entries : Nat → Nat) (code : List Insn) (s : Maps) (d : List Byte) : Halt × Maps :=
  ((Ebpf.run ⟨e.order, d, entries⟩ code 512 entry).exec access s).2

/-- The owners and the counters agree with the list of buckets. -/
structure InTurn (queues buckets counter : Nat) (l : List (Nat × Nat)) (s : Maps) : Prop where
  nodup : (l.map Prod.snd).Nodup
  bound : ∀ b ∈ l.map Prod.snd, b < 65536
  free : ∀ b, b ∉ l.map Prod.snd → s buckets b = 0
  owner : ∀ l₁ f b l₂, l = l₁ ++ (f, b) :: l₂ → s buckets b = BitVec.ofNat 32 (turn l₁ f % queues + 1)
  count : ∀ f, s counter f = BitVec.ofNat 32 (turn l f)

namespace InTurn

variable {l : List (Nat × Nat)} {s : Maps}

theorem nil : InTurn queues buckets counter [] fun _ _ => 0 where
  nodup := List.nodup_nil
  bound _ h := absurd h List.not_mem_nil
  free _ _ := rfl
  owner l₁ f b l₂ h := by simp at h
  count _ := rfl

/-- There are no more buckets than the map has values. -/
private theorem turn_lt (h : InTurn queues buckets counter l s) (f : Nat) : turn l f < 2 ^ 32 := by
  have hsub : l.map Prod.snd ⊆ List.range 65536 := fun b hb => List.mem_range.2 (h.bound b hb)
  have hlen := (List.Nodup.subperm h.nodup hsub).length_le
  rw [List.length_map, List.length_range] at hlen
  have hcount : turn l f ≤ l.length := by
    rw [turn, ← List.length_map Prod.fst]
    exact List.count_le_length
  omega

private theorem turn_append (l : List (Nat × Nat)) (f b g : Nat) :
    turn (l ++ [(f, b)]) g = turn l g + if f = g then 1 else 0 := by
  rw [turn, turn, List.map_append, List.count_append]
  simp [List.count_singleton]

/-- A bucket without an owner is given the next queue of its family. -/
theorem append (h : InTurn queues buckets counter l s) (hne : buckets ≠ counter) (family : Nat) {b : Nat}
    (hnew : b ∉ l.map Prod.snd) (hb : b < 65536) :
    InTurn queues buckets counter (l ++ [(family, b)]) ((s.set counter family (s counter family + 1)).set buckets b
      (BitVec.ofNat 32 (turn l family % queues + 1))) := by
  have hother (b' : Nat) (hb' : b' ≠ b) : ((s.set counter family (s counter family + 1)).set buckets b
      (BitVec.ofNat 32 (turn l family % queues + 1))) buckets b' = s buckets b' := by
    rw [Maps.set_of_ne _ _ fun h => hb' h.2, Maps.set_of_ne _ _ fun h => hne h.1]
  have hsnd : (l ++ [(family, b)]).map Prod.snd = l.map Prod.snd ++ [b] := by
    rw [List.map_append]
    rfl
  constructor
  · rw [hsnd, List.nodup_append]
    refine ⟨h.nodup, List.nodup_singleton b, fun x hx y hy hxy => hnew ?_⟩
    rwa [← List.mem_singleton.1 hy, ← hxy]
  · intro b' hmem
    rw [hsnd] at hmem
    rcases List.mem_append.1 hmem with hmem | hmem
    · exact h.bound b' hmem
    · rwa [List.mem_singleton.1 hmem]
  · intro b' hmem
    rw [hsnd, List.mem_append, not_or] at hmem
    rw [hother b' fun h => hmem.2 (List.mem_singleton.2 h)]
    exact h.free b' hmem.1
  · intro l₁ f b' l₂ hl
    rcases List.eq_nil_or_concat l₂ with rfl | ⟨l₂, last, rfl⟩
    · obtain ⟨rfl, hlast⟩ := List.append_inj' hl rfl
      obtain ⟨rfl, rfl⟩ := Prod.mk.inj (List.singleton_inj.1 hlast)
      exact Maps.set_self _ _ _ _
    · have hl' : l ++ [(family, b)] = (l₁ ++ (f, b') :: l₂) ++ [last] := by
        rw [hl]
        simp
      obtain ⟨rfl, -⟩ := List.append_inj' hl' rfl
      have hb' : b' ≠ b := by
        rintro rfl
        exact hnew (by simp)
      rw [hother b' hb']
      exact h.owner l₁ f b' l₂ rfl
  · intro g
    rw [Maps.set_of_ne _ _ fun h => hne h.1.symm, turn_append]
    by_cases hg : g = family
    · rw [hg, Maps.set_self, h.count, if_pos rfl, BitVec.ofNat_add]
      rfl
    · rw [Maps.set_of_ne _ _ fun h => hg h.2, if_neg (Ne.symm hg), Nat.add_zero]
      exact h.count g

end InTurn

/-- What the program does when nobody interrupts it. -/
private theorem exec_assign (family bucket : Nat) (s : Maps) (hne : buckets ≠ counter) :
    ((assign queues buckets counter family bucket).exec access s).2 =
      if s buckets bucket ≠ 0 then (queueOf (s buckets bucket), s)
      else (queueOf (BitVec.ofNat 32 ((s counter family).toNat % queues + 1)),
        (s.set counter family (s counter family + 1)).set buckets bucket
          (BitVec.ofNat 32 ((s counter family).toNat % queues + 1))) := by
  by_cases howner : s buckets bucket ≠ 0
  · rw [if_pos howner]
    show (Program.exec access (if s buckets bucket ≠ 0 then _ else _) s).2 = _
    rw [if_pos howner]
    rfl
  · have hadd : (s.set counter family (s counter family + 1)) buckets bucket = 0 := by
      rw [Maps.set_of_ne _ _ fun h => hne h.1]
      exact not_not.1 howner
    rw [if_neg howner]
    show (Program.exec access (if s buckets bucket ≠ 0 then _ else _) s).2 = _
    rw [if_neg howner]
    show (queueOf (if (s.set counter family (s counter family + 1)) buckets bucket = 0 then _ else _),
      if (s.set counter family (s counter family + 1)) buckets bucket = 0 then _ else _) = _
    rw [if_pos hadd, if_pos hadd]
    rfl

private theorem steerOne_eq (hqueues : 0 < queues) (hmax : queues ≤ 128) (hbuckets : entries buckets = 65536)
    (hcounter : entries counter = 2) (s : Maps) (d : List Byte) :
    steerOne e entries (steeringBuilder e queues flowAware buckets counter).code s d =
      ((steer e queues flowAware buckets counter d).exec access s).2 := by
  have hprogram := @invocations_program queues buckets counter e flowAware Unit entries hqueues hmax hbuckets hcounter
    (fun _ => d) ()
  exact congrArg (fun p => (Program.exec access p s).2) hprogram

/-- The queue that an owner stands for. -/
private theorem queueOf_turn (hqueues : 0 < queues) (hmax : queues ≤ 128) (n : Nat) :
    queueOf (BitVec.ofNat 32 (n % queues + 1)) = .exit (BitVec.ofNat 64 (n % queues)) := by
  rw [queueOf, toNat_candidate hqueues hmax, Nat.add_sub_cancel]

/-- What a packet of the stream does. -/
theorem InTurn.steer {l : List (Nat × Nat)} {s : Maps} (h : InTurn queues buckets counter l s) (hqueues : 0 < queues)
    (hmax : queues ≤ 128) (hne : buckets ≠ counter) (d : List Byte) :
    InTurn queues buckets counter (admitBucket e flowAware l d)
      ((Tayga.steer e queues flowAware buckets counter d).exec access s).2.2 ∧
    (steeringKey flowAware d = none →
      ((Tayga.steer e queues flowAware buckets counter d).exec access s).2 = (.exit 0, s)) ∧
    ∀ k, steeringKey flowAware d = some k → ∃ l₁ f l₂, admitBucket e flowAware l d = l₁ ++ (f, k.bucket e) :: l₂ ∧
      ((Tayga.steer e queues flowAware buckets counter d).exec access s).2.1 =
        .exit (BitVec.ofNat 64 (turn l₁ f % queues)) := by
  unfold Tayga.steer admitBucket
  cases steeringKey flowAware d with
  | none => exact ⟨h, fun _ => rfl, fun k hk => absurd hk (by simp)⟩
  | some k =>
    simp only [Option.some.injEq, reduceCtorEq, false_implies, true_and, forall_eq']
    have hb : k.bucket e < 65536 := toNat_mix_lt _
    rw [exec_assign _ _ _ hne]
    by_cases hmem : k.bucket e ∈ l.map Prod.snd
    · rw [if_pos hmem]
      obtain ⟨⟨f, b⟩, hfb, hbucket⟩ := List.mem_map.1 hmem
      obtain ⟨l₁, l₂, rfl⟩ := List.append_of_mem hfb
      obtain rfl : b = k.bucket e := hbucket
      have howner := h.owner l₁ f _ l₂ rfl
      have hpos : s buckets (k.bucket e) ≠ 0 := by
        rw [howner]
        exact candidate_ne_zero hqueues hmax _
      rw [if_pos hpos]
      refine ⟨h, l₁, f, l₂, rfl, ?_⟩
      rw [howner]
      exact queueOf_turn hqueues hmax _
    · have hcount := h.count k.family
      have hturn : (s counter k.family).toNat = turn l k.family := by
        rw [hcount, BitVec.toNat_ofNat, Nat.mod_eq_of_lt (h.turn_lt _)]
      rw [if_neg hmem, if_neg (not_not.2 (h.free _ hmem)), hturn]
      exact ⟨h.append hne _ hmem hb, l, k.family, [], rfl, queueOf_turn hqueues hmax _⟩

/-- **Steering gives out the queues in turn.**  When the packets come one after the other, the bucket of a packet is
among those that were admitted, and its queue is the number of buckets admitted before it in the same family, counted
around the queues. -/
theorem steering_in_turn (hqueues : 0 < queues) (hmax : queues ≤ 128) (hne : buckets ≠ counter)
    (hbuckets : entries buckets = 65536) (hcounter : entries counter = 2) (ds : List (List Byte)) (d : List Byte) :
    let code := (steeringBuilder e queues flowAware buckets counter).code
    let s := ds.foldl (fun s d => (steerOne e entries code s d).2) fun _ _ => 0
    (steeringKey flowAware d = none → steerOne e entries code s d = (.exit 0, s)) ∧
      ∀ k, steeringKey flowAware d = some k →
        ∃ l₁ f l₂, (ds ++ [d]).foldl (admitBucket e flowAware) [] = l₁ ++ (f, k.bucket e) :: l₂ ∧
          (steerOne e entries code s d).1 = .exit (BitVec.ofNat 64 (turn l₁ f % queues)) := by
  intro code s
  have hone (s : Maps) (d : List Byte) : steerOne e entries code s d =
      ((Tayga.steer e queues flowAware buckets counter d).exec access s).2 :=
    steerOne_eq hqueues hmax hbuckets hcounter s d
  have hrun (ds : List (List Byte)) {l : List (Nat × Nat)} {s : Maps} (h : InTurn queues buckets counter l s) :
      InTurn queues buckets counter (ds.foldl (admitBucket e flowAware) l)
        (ds.foldl (fun s d => (steerOne e entries code s d).2) s) := by
    induction ds generalizing l s with
    | nil => exact h
    | cons d ds ih =>
      refine ih ?_
      dsimp only
      rw [hone]
      exact (h.steer hqueues hmax hne d).1
  rw [List.foldl_append, hone]
  exact ((hrun ds .nil).steer hqueues hmax hne d).2

end

theorem steering_in_turn_sample :
    let code := (steeringBuilder .little 4 true 0 1).code
    let entries : Nat → Nat := fun fd => if fd = 0 then 65536 else 2
    let s := [steeringSample].foldl (fun s d => (steerOne .little entries code s d).2) fun _ _ => 0
    (steerOne .little entries code (fun _ _ => 0) steeringSample).1 = .exit 0 ∧
      (steerOne .little entries code s steeringReply).1 = .exit 1 := by
  intro code entries s
  have hturn (ds : List (List Byte)) (d : List Byte) := (@steering_in_turn .little 4 0 1 true entries (by decide)
    (by decide) (by decide) rfl rfl ds d).2
  constructor
  · obtain ⟨l₁, f, l₂, hl, hqueue⟩ := hturn [] steeringSample _ rfl
    have hallow : ([] ++ [steeringSample]).foldl (admitBucket .little true) [] = [(0, 6837)] := by decide +kernel
    rw [hallow] at hl
    obtain rfl : l₁ = [] := by cases l₁ with simp at hl ⊢
    exact hqueue
  · obtain ⟨l₁, f, l₂, hl, hqueue⟩ := hturn [steeringSample] steeringReply _ rfl
    have hallow : ([steeringSample] ++ [steeringReply]).foldl (admitBucket .little true) [] =
        [(0, 6837), (0, 59686)] := by decide +kernel
    rw [hallow] at hl
    obtain rfl : l₁ = [(0, 6837)] := by
      cases l₁ with
      | nil =>
        -- the reply is in a bucket of its own
        have hbucket : (6837 : Nat) = SteeringKey.bucket .little _ := congrArg Prod.snd (List.cons.inj hl).1
        exact absurd hbucket (by decide +kernel)
      | cons x l₁ =>
        obtain ⟨rfl, hl⟩ := List.cons.inj hl
        cases l₁ with
        | nil => rfl
        | cons y l₁ => simp at hl
    obtain rfl : f = 0 := (congrArg Prod.fst (List.cons.inj (List.cons.inj hl).2).1).symm
    exact hqueue

end Tayga
