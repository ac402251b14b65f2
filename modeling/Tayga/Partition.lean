import Mathlib.Data.List.Nodup
import Tayga.LoadProofs
import Tayga.Runs

/-!
# The free runs partition the pool

The mapper may also load the dynamic map file.  In every state reached from a startup, whatever the lookups, the reloads
and the loads were, the free runs, the leases and the pool's own address make up the pool (`pool_partition_run`), and no
count or address of a run wraps.
-/

namespace Tayga

open FreeRuns

variable {g : Gcfg} {p : DynamicPool} {libc : Libc}

/-! ### Runs with loads -/

/-- A step of the mapper, or a load of the dynamic map file. -/
inductive PoolEvent where
  | event (e : Event)
  | load (file : Option (List Char)) (time : Int)

/-- What an event does. -/
def poolStep (libc : Libc) (s : System) : PoolEvent → System
  | .event e => step libc s e
  | .load file time => { s with map := loadDynamic s.map libc file time }

/-- Every step and every load keep the base invariant. -/
theorem SysBase.poolStep {s : System} (h : SysBase s) (e : PoolEvent) : SysBase (poolStep libc s e) := by
  cases e with
  | event e => exact h.step e
  | load file time => exact ⟨h.base.loadDynamic file time, h.checked⟩

private theorem SysBase.poolRun {s : System} (h : SysBase s) (es : List PoolEvent) :
    SysBase (Run.run (Tayga.poolStep libc) s es) := by
  induction es generalizing s with
  | nil => exact h
  | cons e es ih => exact ih (h.poolStep e)

/-- The base invariant holds in every state reached from a startup. -/
theorem base_poolRun {e : Endian} {now : Int} {content : List Char} {sd : Option (List Char)}
    {rand : Nat → BitVec 32} (hs : startup libc e now content sd rand = .ok g) (es : List PoolEvent) :
    Base (Run.run (poolStep libc) (.start g) es).map :=
  ((startup_inv hs).start.sysBase.poolRun es).base

/-! ### The partition -/

/-- The free addresses of a run. -/
def Gcfg.freeOf (g : Gcfg) (r : FreeRef) : List Nat := List.range' ((g.freeAddr r).addr + 1) (g.freeAddr r).count

/-- The number of addresses of the pool. -/
def DynamicPool.size (p : DynamicPool) : Nat := 2 ^ (32 - p.map4.prefixLen)

/-- The free runs, the leases and the pool's own address make up the pool. -/
structure PoolPartition (g : Gcfg) (p : DynamicPool) : Prop where
  head : p.freeList.head? = some .head
  head_addr : (g.freeAddr .head).addr = p.map4.addr.toNat
  sorted : p.freeList.Pairwise fun r s => (g.freeAddr r).addr < (g.freeAddr s).addr
  next : ∀ l r s l', p.freeList = l ++ r :: s :: l' →
    (g.freeAddr s).addr = (g.freeAddr r).addr + (g.freeAddr r).count + 1
  last : ∀ l r, p.freeList = l ++ [r] →
    (g.freeAddr r).addr + (g.freeAddr r).count + 1 = p.map4.addr.toNat + p.size
  leases : ∀ d, .host d ∈ p.freeList ↔ d ∈ p.mappedList ++ p.dormantList
  lease_addr : ∀ d ∈ p.mappedList ++ p.dormantList, (g.freeAddr (.host d)).addr = (g.v4 d).toNat
  parts : (p.map4.addr.toNat :: ((p.mappedList ++ p.dormantList).map fun d => (g.v4 d).toNat) ++
    p.freeList.flatMap g.freeOf).Perm (List.range' p.map4.addr.toNat p.size)
  total : (p.freeList.map fun r => (g.freeAddr r).count).sum + (p.mappedList ++ p.dormantList).length + 1 = p.size

/-- The sums and differences of the pool's operations are those of the integers. -/
structure NoWrap (g : Gcfg) (p : DynamicPool) : Prop where
  pool : p.map4.addr.toNat + p.size ≤ 2 ^ 32
  run : ∀ r ∈ p.freeList, (g.freeAddr r).addr + (g.freeAddr r).count < 2 ^ 32
  cut : ∀ r ∈ p.freeList, ∀ a, a ∈ g.freeOf r →
    (g.freeAddr r).addr + sub32 a (g.freeAddr r).addr = a ∧
    sub32 (sub32 a (g.freeAddr r).addr) 1 + 1 = sub32 a (g.freeAddr r).addr ∧
    sub32 (g.freeAddr r).count (sub32 a (g.freeAddr r).addr) + sub32 a (g.freeAddr r).addr = (g.freeAddr r).count
  join : ∀ d ∈ p.dormantList, ∃ r, prevRun (.host d) p.freeList = some r ∧
    (g.freeAddr r).count + ((g.hosts d).free.count + 1) < 2 ^ 32

private theorem RunsInv.freeList_perm (h : RunsInv g p) :
    p.freeList.Perm (.head :: (p.mappedList ++ p.dormantList).map FreeRef.host) := by
  refine (List.perm_ext_iff_of_nodup h.nodup ?_).2 fun r => ?_
  · refine List.nodup_cons.2 ⟨by simp, ?_⟩
    exact List.Nodup.map (f := FreeRef.host) (fun d e hde => by cases hde; rfl) h.nodup_leases
  · cases r with
    | head => simp [List.mem_of_head? h.head]
    | host d => simp [h.hosts]

theorem RunsInv.partition (h : RunsInv g p) : PoolPartition g p := by
  have hperm := h.freeList_perm
  have hrun : p.freeList.map (Prod.fst ∘ g.run) = p.freeList.map fun r => (g.freeAddr r).addr := rfl
  refine ⟨h.head, h.head_addr, ?_, ?_, ?_, ?_, ?_, ?_, ?_⟩
  · have := h.chain.starts_lt
    rwa [List.pairwise_map] at this
  · intro l r s l' e
    have hc := h.chain
    rw [e, List.map_append, List.map_cons, List.map_cons] at hc
    exact hc.next
  · intro l r e
    have hc := h.chain
    rw [e, List.map_append, List.map_cons, List.map_nil] at hc
    exact hc.last
  · intro d
    rw [h.hosts, List.mem_append]
  · intro d hd
    exact h.addr d (List.mem_append.1 hd)
  · have hp := h.chain.perm_range
    rw [Nat.add_sub_cancel_left, List.map_map, hrun, List.flatMap_map] at hp
    refine (List.Perm.append_right _ ?_).trans hp
    refine List.Perm.symm ((hperm.map _).trans ?_)
    rw [List.map_cons, h.head_addr, List.map_map]
    refine List.Perm.cons _ (List.Perm.of_eq (List.map_congr_left fun d hd => ?_))
    exact h.addr d (List.mem_append.1 hd)
  · have hsum := h.chain.sum_free
    rw [Nat.add_sub_cancel_left, List.map_map, List.length_map, hperm.length_eq, List.length_cons, List.length_map]
        at hsum
    exact (Nat.add_assoc _ _ _).trans hsum

/-- A lease's run follows another run. -/
theorem RunsInv.prevRun (h : RunsInv g p) {d : Nat} (hd : FreeRef.host d ∈ p.freeList) :
    ∃ r, prevRun (.host d) p.freeList = some r := by
  have key : ∀ (a : FreeRef) (l : List FreeRef), FreeRef.host d ∈ l → ∃ r, Tayga.prevRun (.host d) (a :: l) = some r
      := by
    intro a l
    induction l generalizing a with
    | nil => simp
    | cons b l ih =>
      intro hm
      unfold Tayga.prevRun
      split
      · exact ⟨a, rfl⟩
      · rename_i hb
        exact ih b ((List.mem_cons.1 hm).resolve_left fun e => hb e.symm)
  have hh := h.head
  cases hl : p.freeList with
  | nil =>
    rw [hl] at hd
    cases hd
  | cons a l =>
    rw [hl] at hh hd
    obtain rfl := Option.some.inj hh
    exact key _ l ((List.mem_cons.1 hd).resolve_left (by simp))

private theorem RunsInv.noWrap (h : RunsInv g p) : NoWrap g p := by
  have hrun : ∀ r ∈ p.freeList, (g.freeAddr r).addr + (g.freeAddr r).count + 1 ≤ 2 ^ 32 := fun r hr => h.run_le hr
  refine ⟨h.stop_le, fun r hr => hrun r hr, ?_, ?_⟩
  · intro r hr a ha
    obtain ⟨hlow, hhigh⟩ := List.mem_range'_1.1 ha
    have := hrun r hr
    rw [sub32_of_le (a := a) (by omega) (by omega), sub32_of_le (b := 1) (by omega) (by omega),
      sub32_of_le (by omega) (by omega)]
    omega
  · intro d hd
    obtain ⟨r, hr⟩ := h.prevRun (h.lease_mem (Or.inr hd))
    obtain ⟨k, k', e⟩ := prevRun_eq_some hr
    refine ⟨r, hr, ?_⟩
    have hc := h.chain
    rw [e, List.map_append, List.map_cons, List.map_cons] at hc
    have hb := (hc.merge.bounds _ (List.mem_append_right _ List.mem_cons_self)).2
    have := h.stop_le
    simp only [Gcfg.freeAddr] at hb
    simp only [Gcfg.freeAddr]
    omega

/-- **The free runs partition the pool in every state reached** from a startup, and no count or address wraps. -/
theorem pool_partition_run {e : Endian} {now : Int} {content : List Char} {sd : Option (List Char)}
    {rand : Nat → BitVec 32} (hs : startup libc e now content sd rand = .ok g) (es : List PoolEvent)
    (hp : (Run.run (poolStep libc) (.start g) es).map.dynamicPool = some p) :
    PoolPartition (Run.run (poolStep libc) (.start g) es).map p ∧
    NoWrap (Run.run (poolStep libc) (.start g) es).map p :=
  have h := (base_poolRun hs es).runs p hp
  ⟨h.partition, h.noWrap⟩

/-- A lease is loaded, and a second one assigned. -/
def sampleLoad : List PoolEvent :=
  [.load (some "198.18.0.5\t2001:db8::99\t999999\n".toList) 1000000, .event (.look 0 (.six sampleHost true)),
    .event (.finish 0)]

theorem pool_partition_run_sample : ∃ g p, sampleStart = .ok g ∧ p.mappedList.length = 2 ∧
    PoolPartition (Run.run (poolStep sampleLibc) (.start g) sampleLoad).map p ∧
    NoWrap (Run.run (poolStep sampleLibc) (.start g) sampleLoad).map p := by
  obtain ⟨g, hs, hl⟩ := start_any (r := sampleStart) (p := fun g =>
    (Run.run (poolStep sampleLibc) (.start g) sampleLoad).map.dynamicPool.any fun p => p.mappedList.length = 2)
    (by decide +kernel)
  cases hp : (Run.run (poolStep sampleLibc) (.start g) sampleLoad).map.dynamicPool with
  | none =>
    rw [hp] at hl
    cases hl
  | some p =>
    rw [hp] at hl
    exact ⟨g, p, hs, by simpa using hl, pool_partition_run hs sampleLoad hp⟩

end Tayga
