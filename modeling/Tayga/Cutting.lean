import Mathlib.Tactic.Tauto
import Tayga.Idling

/-!
# Cutting leases out of the free runs

`alloc_map_dynamic` splits a free run at the address of the new lease.  The runs stay in order (`chain_cut`), and a
lease for a host that has none keeps the invariant and can be linked (`Inv.fresh`, `linkable_fresh`).
-/

namespace Tayga

open FreeRuns FirstMatch

variable {g : Gcfg} {p : DynamicPool}

/-! ### Cutting a lease out of a free run -/

private theorem freeAddr_setHost (d : Nat) (h : MapDynamic) (r : FreeRef) :
    (g.setHost d h).freeAddr r = if r = .host d then h.free else g.freeAddr r := by
  cases r with
  | head => rfl
  | host e =>
    by_cases he : e = d
    · subst he
      simp [Gcfg.freeAddr, Gcfg.setHost]
    · simp [Gcfg.freeAddr, Gcfg.setHost, he]

theorem freeAddr_setFree (hp : g.dynamicPool.isSome) (f r : FreeRef) (v : FreeAddr) :
    (g.setFree f v).freeAddr r = if r = f then v else g.freeAddr r := by
  obtain ⟨p, hp⟩ := Option.isSome_iff_exists.1 hp
  cases f with
  | head => cases r <;> simp [Gcfg.setFree, Gcfg.freeAddr, hp]
  | host d =>
    have := freeAddr_setHost (g := g) d { g.hosts d with free := v } r
    exact this

/-- Writing a free run leaves everything else of every lease alone. -/
theorem hosts_setFree (f : FreeRef) (v : FreeAddr) (e : Nat) :
    ((g.setFree f v).hosts e).map4 = (g.hosts e).map4 ∧ ((g.setFree f v).hosts e).map6 = (g.hosts e).map6 ∧
    ((g.setFree f v).hosts e).cacheEntry = (g.hosts e).cacheEntry ∧
    ((g.setFree f v).hosts e).lastUse = (g.hosts e).lastUse := by
  cases f with
  | head => exact ⟨rfl, rfl, rfl, rfl⟩
  | host d =>
    by_cases he : e = d
    · subst he
      simp [Gcfg.setFree, Gcfg.setHost]
    · simp [Gcfg.setFree, Gcfg.setHost, Function.update_of_ne he]

theorem dynamicPool_setFree (hp : g.dynamicPool = some p) (f : FreeRef) (v : FreeAddr) :
    ∃ v', (g.setFree f v).dynamicPool = some { p with freeHead := v' } := by
  cases f with
  | head => exact ⟨v, by simp [Gcfg.setFree, hp]⟩
  | host d => exact ⟨p.freeHead, hp⟩

theorem sub32_of_le {a b : Nat} (h : b ≤ a) (ha : a < 2 ^ 32) : sub32 a b = a - b := by
  unfold sub32
  rw [show a + 2 ^ 32 - b = a - b + 2 ^ 32 by omega, Nat.add_mod_right, Nat.mod_eq_of_lt (by omega)]

/-- A new lease. -/
def newLease (a : In4) (x : In6) (free : FreeAddr) : MapDynamic where
  map4 := ⟨a, ip4Mask 32, 32, .dynamicHost⟩
  map6 := ⟨x, ip6Mask 128, 128, .dynamicHost⟩
  cacheEntry := none
  lastUse := 0
  free := free

/-- The next free index names `h`, and its run follows the run `f`. -/
def addLease (g : Gcfg) (p : DynamicPool) (f : FreeRef) (h : MapDynamic) : Gcfg := { g.setHost g.nHosts h with
  nHosts := g.nHosts + 1
  dynamicPool := some { p with
    freeList := p.freeList.flatMap fun r => if r = f then [r, .host g.nHosts] else [r] } }

/-- The state after `alloc_map_dynamic`. -/
def cut (g : Gcfg) (p : DynamicPool) (x : In6) (a : In4) (f : FreeRef) : Gcfg :=
  let v := g.freeAddr f
  (addLease g p f (newLease a x ⟨a.toNat, sub32 v.count (sub32 a.toNat v.addr)⟩)).setFree f
    ⟨v.addr, sub32 (sub32 a.toNat v.addr) 1⟩

theorem allocMapDynamic_eq (x : In6) (a : In4) (f : FreeRef) :
    allocMapDynamic g p x a f = if g.oom then none else some (g.nHosts, cut g p x a f) := rfl

private theorem freeAddr_addLease (hp : g.dynamicPool = some p) (f r : FreeRef) (h : MapDynamic) :
    (addLease g p f h).freeAddr r = if r = .host g.nHosts then h.free else g.freeAddr r := by
  cases r with
  | head => simp [addLease, Gcfg.freeAddr, hp]
  | host e => exact freeAddr_setHost (g := g) g.nHosts h (.host e)

private theorem hosts_addLease_of_ne {e : Nat} (he : e ≠ g.nHosts) (f : FreeRef) (h : MapDynamic) :
    (addLease g p f h).hosts e = g.hosts e := Function.update_of_ne he _ _

private theorem hosts_addLease_self (f : FreeRef) (h : MapDynamic) : (addLease g p f h).hosts g.nHosts = h :=
  Function.update_self _ _ _

/-- A run `f` of the pool, and a free address in it. -/
structure FreeIn (g : Gcfg) (p : DynamicPool) (f : FreeRef) (a : Nat) : Prop where
  mem : f ∈ p.freeList
  low : (g.freeAddr f).addr < a
  high : a ≤ (g.freeAddr f).addr + (g.freeAddr f).count
  pool : findMap4 g (BitVec.ofNat 32 a) = some .pool

section Cut

variable {x : In6} {a : Nat} {f : FreeRef}

private theorem RunsInv.host_lt (h : RunsInv g p) {d : Nat} (hd : FreeRef.host d ∈ p.freeList) : d < g.nHosts :=
  h.lease_lt d ((h.hosts d).1 hd)

theorem FreeIn.ne (hf : FreeIn g p f a) (h : RunsInv g p) : f ≠ .host g.nHosts := by
  rintro rfl
  have := h.host_lt hf.mem
  omega

theorem FreeIn.lt (hf : FreeIn g p f a) (h : RunsInv g p) : a < 2 ^ 32 := by
  have := h.run_le hf.mem
  have := hf.high
  simp only [Gcfg.run] at *
  omega

theorem FreeIn.toNat (hf : FreeIn g p f a) (h : RunsInv g p) : (BitVec.ofNat 32 a).toNat = a := by
  rw [BitVec.toNat_ofNat, Nat.mod_eq_of_lt (hf.lt h)]

private theorem freeAddr_cut (h : RunsInv g p) (hp : g.dynamicPool = some p) (hf : FreeIn g p f a) (r : FreeRef) :
    (cut g p x (BitVec.ofNat 32 a) f).freeAddr r =
      if r = f then ⟨(g.freeAddr f).addr, a - (g.freeAddr f).addr - 1⟩
      else if r = .host g.nHosts then ⟨a, (g.freeAddr f).count - (a - (g.freeAddr f).addr)⟩
      else g.freeAddr r := by
  have hrun := h.run_le hf.mem
  simp only [Gcfg.run] at hrun
  have hlow := hf.low
  have hhigh := hf.high
  unfold cut
  simp only []
  rw [freeAddr_setFree rfl, freeAddr_addLease hp, hf.toNat h, sub32_of_le (by omega) (hf.lt h),
    sub32_of_le (by omega) (by omega), sub32_of_le (by omega) (by omega)]
  rfl

theorem hosts_cut_of_ne {e : Nat} (he : e ≠ g.nHosts) (b : In4) :
    ((cut g p x b f).hosts e).map4 = (g.hosts e).map4 ∧ ((cut g p x b f).hosts e).map6 = (g.hosts e).map6 ∧
    ((cut g p x b f).hosts e).cacheEntry = (g.hosts e).cacheEntry ∧
    ((cut g p x b f).hosts e).lastUse = (g.hosts e).lastUse := by
  unfold cut
  simp only []
  rw [← hosts_addLease_of_ne (p := p) he f]
  exact hosts_setFree _ _ e

theorem hosts_cut_self (b : In4) :
    ((cut g p x b f).hosts g.nHosts).map4 = ⟨b, ip4Mask 32, 32, .dynamicHost⟩ ∧
    ((cut g p x b f).hosts g.nHosts).map6 = ⟨x, ip6Mask 128, 128, .dynamicHost⟩ ∧
    ((cut g p x b f).hosts g.nHosts).cacheEntry = none := by
  have h := hosts_setFree (g := addLease g p f (newLease b x
    ⟨b.toNat, sub32 (g.freeAddr f).count (sub32 b.toNat (g.freeAddr f).addr)⟩)) f
    ⟨(g.freeAddr f).addr, sub32 (sub32 b.toNat (g.freeAddr f).addr) 1⟩ g.nHosts
  rw [hosts_addLease_self] at h
  exact ⟨h.1, h.2.1, h.2.2.1⟩

private theorem dynamicPool_cut (b : In4) : ∃ v, (cut g p x b f).dynamicPool = some { p with
    freeList := p.freeList.flatMap fun r => if r = f then [r, .host g.nHosts] else [r]
    freeHead := v } := by
  unfold cut
  exact dynamicPool_setFree (g := addLease g p f _) rfl f _

/-- The runs after the cut, with the new one behind `f`. -/
private theorem freeList_cut (h : RunsInv g p) (hf : FreeIn g p f a) : ∃ l l', p.freeList = l ++ f :: l' ∧
    (p.freeList.flatMap fun r => if r = f then [r, .host g.nHosts] else [r]) = l ++ f :: .host g.nHosts :: l' ∧
    f ∉ l ∧ f ∉ l' := by
  obtain ⟨l, l', e⟩ := List.append_of_mem hf.mem
  have hn := h.nodup
  rw [e, List.nodup_append] at hn
  obtain ⟨-, hn, hd⟩ := hn
  have hl : f ∉ l := fun hm => hd f hm f List.mem_cons_self rfl
  have hl' : f ∉ l' := (List.nodup_cons.1 hn).1
  have hid : ∀ k : List FreeRef, f ∉ k →
      (k.flatMap fun r => if r = f then [r, .host g.nHosts] else [r]) = k := by
    intro k hk
    induction k with
    | nil => rfl
    | cons r k ih =>
      rw [List.mem_cons, not_or] at hk
      rw [List.flatMap_cons, if_neg (Ne.symm hk.1), ih hk.2]
      rfl
  refine ⟨l, l', e, ?_, hl, hl'⟩
  rw [e, List.flatMap_append, List.flatMap_cons, if_pos rfl, hid l hl, hid l' hl']
  rfl

/-- The cut keeps the runs in order. -/
private theorem chain_cut (h : RunsInv g p) (hp : g.dynamicPool = some p) (hf : FreeIn g p f a) :
    Chain (p.map4.addr.toNat + 2 ^ (32 - p.map4.prefixLen)) p.map4.addr.toNat
      ((p.freeList.flatMap fun r => if r = f then [r, .host g.nHosts] else [r]).map
        (cut g p x (BitVec.ofNat 32 a) f).run) := by
  obtain ⟨l, l', e, e', hl, hl'⟩ := freeList_cut h hf
  have hrun : ∀ k : List FreeRef, f ∉ k → (∀ r ∈ k, r ∈ p.freeList) →
      k.map (cut g p x (BitVec.ofNat 32 a) f).run = k.map g.run := by
    intro k hk hkp
    refine List.map_congr_left fun r hr => ?_
    have hrf : r ≠ f := fun he => hk (he ▸ hr)
    have hrd : r ≠ .host g.nHosts := by
      rintro rfl
      have := h.host_lt (hkp _ hr)
      omega
    simp only [Gcfg.run, freeAddr_cut h hp hf, if_neg hrf, if_neg hrd]
  have hlp : ∀ r ∈ l, r ∈ p.freeList := fun r hr => by rw [e]; exact List.mem_append_left _ hr
  have hlp' : ∀ r ∈ l', r ∈ p.freeList := fun r hr => by
    rw [e]
    exact List.mem_append_right _ (List.mem_cons_of_mem _ hr)
  have hchain := h.chain
  rw [e, List.map_append, List.map_cons] at hchain
  rw [e', List.map_append, List.map_cons, List.map_cons, hrun l hl hlp, hrun l' hl' hlp']
  have := hchain.split hf.low hf.high
  simpa only [Gcfg.run, freeAddr_cut h hp hf, if_true, if_neg (hf.ne h).symm] using this

/-- The state with one more dormant lease. -/
def withDormant (g : Gcfg) (d : Nat) : Gcfg := { g with
  dynamicPool := g.dynamicPool.map fun p => { p with dormantList := d :: p.dormantList } }

private theorem run_withDormant (d : Nat) : (withDormant g d).run = g.run := by
  funext r
  cases r with
  | head =>
    simp only [Gcfg.run, Gcfg.freeAddr, withDormant]
    cases g.dynamicPool <;> rfl
  | host e => rfl

/-- The state right after a cut, the new lease being listed as idle. -/
def fresh (g : Gcfg) (p : DynamicPool) (x : In6) (a : Nat) (f : FreeRef) : Gcfg :=
  withDormant (cut g p x (BitVec.ofNat 32 a) f) g.nHosts

theorem dynamicPool_fresh : ∃ v, (fresh g p x a f).dynamicPool = some { p with
    dormantList := g.nHosts :: p.dormantList
    freeList := p.freeList.flatMap fun r => if r = f then [r, .host g.nHosts] else [r]
    freeHead := v } := by
  obtain ⟨v, hv⟩ := dynamicPool_cut (g := g) (p := p) (x := x) (f := f) (BitVec.ofNat 32 a)
  exact ⟨v, by rw [fresh, withDormant, hv]; rfl⟩

theorem sameMapped_fresh (h : Base g) (hp : g.dynamicPool = some p) : SameMapped g (fresh g p x a f) := by
  obtain ⟨v, hv⟩ := dynamicPool_fresh (g := g) (p := p) (x := x) (a := a) (f := f)
  have hne : ∀ e ∈ g.mapped, e ≠ g.nHosts := by
    intro e he
    rw [mapped_of_pool hp] at he
    have := (h.runs p hp).lease_lt e (Or.inl he)
    omega
  have hold := fun e he => hosts_cut_of_ne (g := g) (p := p) (x := x) (f := f) (hne e he) (BitVec.ofNat 32 a)
  constructor
  case host4 => exact fun e he => (hold e he).1
  case host6 => exact fun e he => (hold e he).2.1
  case cacheEntry => exact fun e he => (hold e he).2.2.1
  case pool => simp only [Gcfg.map4, hv, hp]
  case isSome => rw [hv, hp]; rfl
  case mapped => rw [mapped_of_pool hv, mapped_of_pool hp]
  all_goals cases f <;> simp only [fresh, withDormant, cut, Gcfg.setFree, addLease, Gcfg.setHost]

theorem v4_fresh_self : (fresh g p x a f).v4 g.nHosts = BitVec.ofNat 32 a := by
  change ((cut g p x (BitVec.ofNat 32 a) f).hosts g.nHosts).map4.addr = _
  rw [(hosts_cut_self _).1]

theorem v6_fresh_self : (fresh g p x a f).v6 g.nHosts = x := by
  change ((cut g p x (BitVec.ofNat 32 a) f).hosts g.nHosts).map6.addr = _
  rw [(hosts_cut_self _).2.1]

theorem v4_fresh_of_ne {e : Nat} (he : e ≠ g.nHosts) : (fresh g p x a f).v4 e = g.v4 e := by
  change ((cut g p x (BitVec.ofNat 32 a) f).hosts e).map4.addr = _
  rw [(hosts_cut_of_ne he _).1]
  rfl

theorem v6_fresh_of_ne {e : Nat} (he : e ≠ g.nHosts) : (fresh g p x a f).v6 e = g.v6 e := by
  change ((cut g p x (BitVec.ofNat 32 a) f).hosts e).map6.addr = _
  rw [(hosts_cut_of_ne he _).2.1]
  rfl

/-- The address that was found is not the translator's own. -/
private theorem FreeIn.ne_localAddr4 (hf : FreeIn g p f a) (hm : TablesInv g) : BitVec.ofNat 32 a ≠ g.localAddr4 := by
  intro he
  obtain ⟨i, hi, hown, -⟩ := hm.own
  have hfi : findMap4 g g.localAddr4 = some (.static i) := by
    have := hm.list4.find_host hi (by rw [Gcfg.map4, hown.1])
    rwa [Gcfg.map4, hown.1] at this
  have := hf.pool
  rw [he, hfi] at this
  cases this

private theorem nHosts_fresh : (fresh g p x a f).nHosts = g.nHosts + 1 := by
  cases f <;> simp only [fresh, withDormant, cut, Gcfg.setFree, addLease, Gcfg.setHost]

private theorem localAddr4_fresh : (fresh g p x a f).localAddr4 = g.localAddr4 := by
  cases f <;> simp only [fresh, withDormant, cut, Gcfg.setFree, addLease, Gcfg.setHost]

/-- The cut keeps the runs of the pool in order. -/
private theorem runsInv_fresh (hpool : RunsInv g p) (hp : g.dynamicPool = some p) (hf : FreeIn g p f a) (v : FreeAddr) :
    RunsInv (fresh g p x a f) { p with
      dormantList := g.nHosts :: p.dormantList
      freeList := p.freeList.flatMap fun r => if r = f then [r, .host g.nHosts] else [r]
      freeHead := v } := by
  obtain ⟨l, l', e, e', hl, hl'⟩ := freeList_cut hpool hf
  have hlt : ∀ d, d ∈ p.mappedList ∨ d ∈ p.dormantList → d ≠ g.nHosts := by
    intro d hd
    have := hpool.lease_lt d hd
    omega
  have hmem : ∀ d, d ∈ p.mappedList ∨ d ∈ g.nHosts :: p.dormantList →
      d = g.nHosts ∨ (d ∈ p.mappedList ∨ d ∈ p.dormantList) := by
    intro d hd
    rw [List.mem_cons] at hd
    tauto
  have hfresh : FreeRef.host g.nHosts ∉ p.freeList := fun hm => by
    have := hpool.host_lt hm
    omega
  refine ⟨hpool.stop_le, ?_, ?_, ?_, ?_, ?_, ?_, ?_⟩
  · have hr : (fresh g p x a f).run = (cut g p x (BitVec.ofNat 32 a) f).run := run_withDormant g.nHosts
    rw [hr]
    exact chain_cut hpool hp hf
  · have := hpool.head
    simp only [e']
    rw [e] at this
    cases l with
    | nil => exact this
    | cons r l => exact this
  · have hnd := hpool.nodup
    simp only [e'] at hnd ⊢
    rw [e] at hnd hfresh
    have hperm : (l ++ f :: .host g.nHosts :: l').Perm (.host g.nHosts :: (l ++ f :: l')) := by
      rw [← List.singleton_append, ← List.append_assoc]
      have := @List.perm_middle _ (FreeRef.host g.nHosts) (l ++ [f]) l'
      simpa using this
    exact hperm.nodup_iff.2 (List.nodup_cons.2 ⟨hfresh, hnd⟩)
  · intro d
    simp only [e', List.mem_append, List.mem_cons, FreeRef.host.injEq]
    have := hpool.hosts d
    rw [e] at this
    simp only [List.mem_append, List.mem_cons] at this
    tauto
  · refine List.perm_middle.nodup_iff.2 (List.nodup_cons.2 ⟨?_, hpool.nodup_leases⟩)
    rw [List.mem_append]
    intro hd
    exact hlt _ hd rfl
  · intro d hd
    rw [nHosts_fresh]
    rcases hmem d hd with rfl | hd
    · omega
    · have := hpool.lease_lt d hd
      omega
  · intro d hd
    have hfree : ((fresh g p x a f).hosts d).free = (cut g p x (BitVec.ofNat 32 a) f).freeAddr (.host d) := rfl
    rw [hfree, freeAddr_cut hpool hp hf]
    rcases hmem d hd with rfl | hd
    · rw [if_neg (hf.ne hpool).symm, if_pos rfl, v4_fresh_self, hf.toNat hpool]
    · rw [v4_fresh_of_ne (hlt d hd), ← hpool.addr d hd]
      split
      · rename_i hdf
        rw [← hdf]
        rfl
      · rw [if_neg (by simpa using hlt d hd)]
        rfl

/-- A lease for a host that has none keeps the pool in order. -/
private theorem poolInv_fresh (h : Inv g) (hp : g.dynamicPool = some p) (hf : FreeIn g p f a)
    (hn : ∀ e ∈ g.mapped, g.v6 e ≠ x) (hn' : ∀ e ∈ g.dormant, g.v6 e ≠ x) (v : FreeAddr) :
    PoolInv (fresh g p x a f) { p with
      dormantList := g.nHosts :: p.dormantList
      freeList := p.freeList.flatMap fun r => if r = f then [r, .host g.nHosts] else [r]
      freeHead := v } := by
  have hpool := h.pool p hp
  have hlt : ∀ d, d ∈ p.mappedList ∨ d ∈ p.dormantList → d ≠ g.nHosts := by
    intro d hd
    have := hpool.lease_lt d hd
    omega
  have hmem : ∀ d, d ∈ p.mappedList ∨ d ∈ g.nHosts :: p.dormantList →
      d = g.nHosts ∨ (d ∈ p.mappedList ∨ d ∈ p.dormantList) := by
    intro d hd
    rw [List.mem_cons] at hd
    tauto
  have hnone : ∀ d, d ∈ p.mappedList ∨ d ∈ p.dormantList → g.v6 d ≠ x := by
    intro d hd
    rcases hd with hd | hd
    · exact hn d (by rw [mapped_of_pool hp]; exact hd)
    · exact hn' d (by rw [dormant_of_pool hp]; exact hd)
  refine ⟨runsInv_fresh hpool.toRunsInv hp hf v, ?_, ?_⟩
  · intro d d' hd hd' hv
    rcases hmem d hd with rfl | hd <;> rcases hmem d' hd' with rfl | hd'
    · rfl
    · rw [v6_fresh_self, v6_fresh_of_ne (hlt d' hd')] at hv
      exact absurd hv.symm (hnone d' hd')
    · rw [v6_fresh_self, v6_fresh_of_ne (hlt d hd)] at hv
      exact absurd hv (hnone d hd)
    · rw [v6_fresh_of_ne (hlt d hd), v6_fresh_of_ne (hlt d' hd')] at hv
      exact hpool.v6_inj d d' hd hd' hv
  · intro d hd
    rw [localAddr4_fresh]
    rcases hmem d hd with rfl | hd
    · rw [v4_fresh_self]
      exact hf.ne_localAddr4 h.maps.toTablesInv
    · rw [v4_fresh_of_ne (hlt d hd)]
      exact hpool.not_own d hd

/-- A pool with free addresses is not a single host. -/
private theorem FreeIn.prefixLen_lt (hf : FreeIn g p f a) (h : RunsInv g p) : p.map4.prefixLen < 32 := by
  have hb := h.chain.bounds _ (List.mem_map_of_mem hf.mem)
  have hlow := hf.low
  have hhigh := hf.high
  simp only [Gcfg.run] at hb
  by_contra hlen
  have : 2 ^ (32 - p.map4.prefixLen) = 1 := by rw [show 32 - p.map4.prefixLen = 0 by omega, Nat.pow_zero]
  omega

/-- The new lease is well formed, and so are the other idle ones. -/
private theorem idle_fresh (h : Base g) (hp : g.dynamicPool = some p) (hv : validateIp6Addr x = none) {d : Nat}
    (hd : d = g.nHosts ∨ d ∈ p.dormantList) :
    HostOk ((fresh g p x a f).hosts d) ∧ validateIp6Addr ((fresh g p x a f).v6 d) = none := by
  have hh : (fresh g p x a f).hosts = (cut g p x (BitVec.ofNat 32 a) f).hosts := rfl
  rw [hh]
  by_cases hdn : d = g.nHosts
  · subst hdn
    rw [v6_fresh_self]
    obtain ⟨h4, h6, -⟩ := hosts_cut_self (g := g) (p := p) (x := x) (f := f) (BitVec.ofNat 32 a)
    exact ⟨⟨by rw [h4], by rw [h6]⟩, hv⟩
  · have hd' : d ∈ g.dormant := by
      rw [dormant_of_pool hp]
      exact hd.resolve_left hdn
    have hok := h.tables.host_ok d (Or.inr hd')
    obtain ⟨h4, h6, -⟩ := hosts_cut_of_ne (g := g) (p := p) (x := x) (f := f) hdn (BitVec.ofNat 32 a)
    rw [v6_fresh_of_ne hdn]
    exact ⟨⟨by rw [h4]; exact hok.map4, by rw [h6]; exact hok.map6⟩, h.valid d (Or.inr hd')⟩

/-- Cutting a lease keeps the base invariant. -/
theorem Base.fresh (h : Base g) (hp : g.dynamicPool = some p) (hf : FreeIn g p f a) (hv : validateIp6Addr x = none) :
    Base (fresh g p x a f) := by
  obtain ⟨v, hpool⟩ := dynamicPool_fresh (g := g) (p := p) (x := x) (a := a) (f := f)
  refine (sameMapped_fresh h hp).base h ?_ ?_
  · intro p' hp'
    rw [hpool] at hp'
    cases hp'
    exact runsInv_fresh (h.runs p hp) hp hf v
  · intro d hd
    rw [dormant_of_pool hpool, List.mem_cons] at hd
    exact idle_fresh h hp hv hd

theorem Inv.fresh (h : Inv g) (hp : g.dynamicPool = some p) (hf : FreeIn g p f a) (hv : validateIp6Addr x = none)
    (hx : findMap6 g x = none) (hn : ∀ e ∈ g.dormant, g.v6 e ≠ x) : Inv (fresh g p x a f) := by
  have hm : ∀ e ∈ g.mapped, g.v6 e ≠ x := by
    rintro e he rfl
    rw [h.maps.find6_lease he] at hx
    cases hx
  obtain ⟨v, hpool⟩ := dynamicPool_fresh (g := g) (p := p) (x := x) (a := a) (f := f)
  refine (sameMapped_fresh h.base hp).inv h ?_ ?_
  · intro p' hp'
    rw [hpool] at hp'
    cases hp'
    exact poolInv_fresh h hp hf hm hn v
  · intro d hd
    rw [dormant_of_pool hpool, List.mem_cons] at hd
    obtain ⟨hok, hval⟩ := idle_fresh (x := x) (a := a) (f := f) h.base hp hv hd
    refine ⟨hok, hval, ?_⟩
    have hh : (Tayga.fresh g p x a f).hosts = (cut g p x (BitVec.ofNat 32 a) f).hosts := rfl
    rw [hh]
    by_cases hdn : d = g.nHosts
    · subst hdn
      exact (hosts_cut_self _).2.2
    · refine (hosts_cut_of_ne hdn _).2.2.1.trans (h.link.dormant d ?_)
      rw [dormant_of_pool hp]
      exact hd.resolve_left hdn

/-- A freshly cut lease can always be linked: its address belonged to the pool itself. -/
theorem linkable_fresh (h : Inv g) (hp : g.dynamicPool = some p) (hf : FreeIn g p f a) (hx : findMap6 g x = none) :
    Linkable (fresh g p x a f) g.nHosts := by
  have hs := sameMapped_fresh (x := x) (a := a) (f := f) h.base hp
  obtain ⟨v, hpool⟩ := dynamicPool_fresh (g := g) (p := p) (x := x) (a := a) (f := f)
  refine ⟨⟨?_, ?_⟩, ?_⟩
  · rw [dormant_of_pool hpool]
    exact List.mem_cons_self
  · rw [v6_fresh_self, hs.findMap6 h.maps.toTablesInv, hx]
  · rintro (⟨m, hm, hl, ha⟩ | ⟨c, hc, h4⟩)
    · -- a host entry would have been found in place of the pool
      rw [hs.map4List] at hm
      rw [hs.map4 h.maps.toTablesInv m hm] at hl ha
      rw [v4_fresh_self] at ha
      have hfm := h.maps.list4.find_host hm hl
      rw [ha] at hfm
      have hpm := hf.pool
      rw [findMap4_eq, hfm] at hpm
      cases hpm
      have := hf.prefixLen_lt (h.pool p hp).toRunsInv
      rw [Gcfg.map4, hp] at hl
      simp only at hl
      omega
    · -- a cached pair would have been found by the slow path
      rw [hs.cacheActive] at hc
      rw [hs.entries, v4_fresh_self] at h4
      obtain ⟨l, hr⟩ := h.coherent _ _ ⟨c, hc, h4, rfl⟩
      rw [resolve4, hf.pool] at hr
      cases hr

end Cut

end Tayga
