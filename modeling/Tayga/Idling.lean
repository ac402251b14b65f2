import Tayga.Linking

/-!
# Idle leases

A change to leases that are not in use, to the free runs or to the bookkeeping of map writes leaves the searches alone
(`SameMapped`), and it keeps the invariant when the pool and the idle leases are in order.
-/

namespace Tayga

open FreeRuns FirstMatch

variable {g : Gcfg} {p : DynamicPool}

/-! ### Changes to idle leases and free runs -/

/-- The two states differ at most in leases that are not in use, in the free runs, in times of last use, and in the
bookkeeping of map writes. -/
structure SameMapped (g g' : Gcfg) : Prop where
  endian : g'.endian = g.endian
  localAddr4 : g'.localAddr4 = g.localAddr4
  localAddr6 : g'.localAddr6 = g.localAddr6
  wkpfStrict : g'.wkpfStrict = g.wkpfStrict
  statics : g'.statics = g.statics
  nStatics : g'.nStatics = g.nStatics
  map4List : g'.map4List = g.map4List
  map6List : g'.map6List = g.map6List
  pool : g'.map4 .pool = g.map4 .pool
  isSome : g'.dynamicPool.isSome = g.dynamicPool.isSome
  mapped : g'.mapped = g.mapped
  host4 : ∀ d ∈ g.mapped, (g'.hosts d).map4 = (g.hosts d).map4
  host6 : ∀ d ∈ g.mapped, (g'.hosts d).map6 = (g.hosts d).map6
  cacheEntry : ∀ d ∈ g.mapped, (g'.hosts d).cacheEntry = (g.hosts d).cacheEntry
  cacheSize : g'.cacheSize = g.cacheSize
  hashBits : g'.hashBits = g.hashBits
  rand : g'.rand = g.rand
  entries : g'.entries = g.entries
  cachePool : g'.cachePool = g.cachePool
  cacheActive : g'.cacheActive = g.cacheActive
  hashTable4 : g'.hashTable4 = g.hashTable4
  hashTable6 : g'.hashTable6 = g.hashTable6

namespace SameMapped

variable {g' : Gcfg}

theorem trans {g'' : Gcfg} (h : SameMapped g g') (h' : SameMapped g' g'') : SameMapped g g'' where
  endian := h'.endian.trans h.endian
  localAddr4 := h'.localAddr4.trans h.localAddr4
  localAddr6 := h'.localAddr6.trans h.localAddr6
  wkpfStrict := h'.wkpfStrict.trans h.wkpfStrict
  statics := h'.statics.trans h.statics
  nStatics := h'.nStatics.trans h.nStatics
  map4List := h'.map4List.trans h.map4List
  map6List := h'.map6List.trans h.map6List
  pool := h'.pool.trans h.pool
  isSome := h'.isSome.trans h.isSome
  mapped := h'.mapped.trans h.mapped
  host4 d hd := (h'.host4 d (h.mapped ▸ hd)).trans (h.host4 d hd)
  host6 d hd := (h'.host6 d (h.mapped ▸ hd)).trans (h.host6 d hd)
  cacheEntry d hd := (h'.cacheEntry d (h.mapped ▸ hd)).trans (h.cacheEntry d hd)
  cacheSize := h'.cacheSize.trans h.cacheSize
  hashBits := h'.hashBits.trans h.hashBits
  rand := h'.rand.trans h.rand
  entries := h'.entries.trans h.entries
  cachePool := h'.cachePool.trans h.cachePool
  cacheActive := h'.cacheActive.trans h.cacheActive
  hashTable4 := h'.hashTable4.trans h.hashTable4
  hashTable6 := h'.hashTable6.trans h.hashTable6

theorem map4 (h : SameMapped g g') (hm : TablesInv g) : ∀ m ∈ g.map4List, g'.map4 m = g.map4 m := by
  intro m hmem
  cases m with
  | static i => simp only [Gcfg.map4, h.statics]
  | pool => exact h.pool
  | host d => simp only [Gcfg.map4, h.host4 d (hm.host4 d hmem)]

theorem map6 (h : SameMapped g g') (hm : TablesInv g) : ∀ m ∈ g.map6List, g'.map6 m = g.map6 m := by
  intro m hmem
  cases m with
  | static i => simp only [Gcfg.map6, h.statics]
  | pool => rfl
  | host d => simp only [Gcfg.map6, h.host6 d (hm.host6 d hmem)]

theorem findMap4 (h : SameMapped g g') (hm : TablesInv g) (a : In4) : findMap4 g' a = findMap4 g a := by
  rw [findMap4_eq, findMap4_eq, h.map4List]
  exact find4_congr (h.map4 hm)

theorem findMap6 (h : SameMapped g g') (hm : TablesInv g) (x : In6) : findMap6 g' x = findMap6 g x := by
  rw [findMap6_eq, findMap6_eq, h.map6List]
  exact find6_congr (h.map6 hm)

theorem found4 (h : SameMapped g g') (hm : TablesInv g) {a : In4} {f : Found In6} (hf : Found4 g a f) :
    Found4 g' a f :=
  hf.transfer h.endian h.wkpfStrict h.localAddr6 (h.findMap4 hm a) (fun i _ => by rw [h.statics])
    (fun i y hy => (h.findMap6 hm y).trans hy)
    (fun d hd => by unfold Gcfg.v6; rw [h.host6 d (hm.host4 d (hm.mem4 hd).1)])

theorem tablesInv (h : SameMapped g g') (hm : TablesInv g) (hd : ∀ d ∈ g'.dormant, HostOk (g'.hosts d)) :
    TablesInv g' := by
  refine hm.of_lists h.endian h.wkpfStrict h.localAddr4 h.localAddr6 h.statics h.nStatics h.isSome
    (by rw [h.map4List]; exact hm.list4.congr (h.map4 hm)) (by rw [h.map6List]; exact hm.list6.congr (h.map6 hm))
    (fun m _ => by rw [h.map4List]) (fun m _ => by rw [h.map6List]) (by rw [h.map4List, h.mapped]; exact hm.host4)
    (by rw [h.map6List, h.mapped]; exact hm.host6) fun d hdm => ?_
  rcases hdm with hdm | hdm
  · rw [h.mapped] at hdm
    have := hm.host_ok d (Or.inl hdm)
    exact ⟨by rw [h.host4 d hdm]; exact this.map4, by rw [h.host6 d hdm]; exact this.map6⟩
  · exact hd d hdm

theorem mapsInv (h : SameMapped g g') (hm : MapsInv g) (hd : ∀ d ∈ g'.dormant, HostOk (g'.hosts d)) : MapsInv g' where
  toTablesInv := h.tablesInv hm.toTablesInv hd
  listed4 := by rw [h.map4List, h.mapped]; exact hm.listed4
  listed6 := by rw [h.map6List, h.mapped]; exact hm.listed6

theorem hashIp4 (h : SameMapped g g') (a : In4) : hashIp4 g' a = hashIp4 g a := by
  simp only [Tayga.hashIp4, h.endian, h.rand, h.hashBits]

theorem hashIp6 (h : SameMapped g g') (x : In6) : hashIp6 g' x = hashIp6 g x := by
  simp only [Tayga.hashIp6, h.endian, h.rand, h.hashBits]

theorem cacheInv (h : SameMapped g g') (hc : CacheInv g) : CacheInv g' where
  size := by rw [h.cacheSize, h.cachePool, h.cacheActive]; exact hc.size
  nodup := by rw [h.cachePool, h.cacheActive]; exact hc.nodup
  hash4 b c := by rw [h.hashTable4, h.cacheActive, h.hashIp4, h.entries]; exact hc.hash4 b c
  hash6 b c := by rw [h.hashTable6, h.cacheActive, h.hashIp6, h.entries]; exact hc.hash6 b c
  unique := by rw [h.cacheActive, h.entries]; exact hc.unique

/-- The base invariant carries over when the runs are in order and the idle leases are. -/
theorem base (h : SameMapped g g') (hi : Base g) (hp : ∀ p, g'.dynamicPool = some p → RunsInv g' p)
    (hd : ∀ d ∈ g'.dormant, HostOk (g'.hosts d) ∧ validateIp6Addr (g'.v6 d) = none) : Base g' where
  tables := h.tablesInv hi.tables fun d hdm => (hd d hdm).1
  runs := hp
  valid d hdm := by
    rcases hdm with hdm | hdm
    · rw [h.mapped] at hdm
      unfold Gcfg.v6
      rw [h.host6 d hdm]
      exact hi.valid d (Or.inl hdm)
    · exact (hd d hdm).2
  cache := h.cacheInv hi.cache

/-- The invariant carries over when the pool is in order and the idle leases are. -/
theorem inv (h : SameMapped g g') (hi : Inv g) (hp : ∀ p, g'.dynamicPool = some p → PoolInv g' p)
    (hd : ∀ d ∈ g'.dormant, HostOk (g'.hosts d) ∧ validateIp6Addr (g'.v6 d) = none ∧ (g'.hosts d).cacheEntry = none) :
    Inv g' where
  maps := h.mapsInv hi.maps fun d hdm => (hd d hdm).1
  pool := hp
  valid := (h.base hi.base (fun p hpp => (hp p hpp).toRunsInv) fun d hdm => ⟨(hd d hdm).1, (hd d hdm).2.1⟩).valid
  cache := h.cacheInv hi.cache
  coherent a x hc := by
    unfold Cached at hc
    rw [h.cacheActive, h.entries] at hc
    obtain ⟨l, hr⟩ := hi.coherent a x hc
    exact ⟨l, resolve4_eq_ok.2 (h.found4 hi.maps.toTablesInv (resolve4_eq_ok.1 hr))⟩
  link := by
    refine ⟨?_, ?_, ?_⟩
    · intro d hdm c
      rw [h.mapped] at hdm
      unfold Gcfg.v4
      rw [h.cacheEntry d hdm, h.host4 d hdm, h.cacheActive, h.entries]
      exact hi.link.link d hdm c
    · intro d hdm c
      rw [h.mapped] at hdm
      rw [h.cacheEntry d hdm, h.entries]
      exact hi.link.flag d hdm c
    · intro d hdm
      exact (hd d hdm).2.2

end SameMapped

/-- The clock, the outcome of allocations and the bookkeeping of map writes are not part of the base invariant. -/
theorem Base.bookkeeping (h : Base g) {g' : Gcfg} (hs : SameMapped g g') (hp : g'.dynamicPool = g.dynamicPool)
    (hh : g'.hosts = g.hosts) (hN : g'.nHosts = g.nHosts) : Base g' := by
  refine hs.base h ?_ ?_
  · intro p hp'
    rw [hp] at hp'
    refine (h.runs p hp').regroup rfl rfl ?_ (fun _ => Iff.rfl) (h.runs p hp').nodup_leases hh hN
    funext r
    cases r <;> simp only [Gcfg.run, Gcfg.freeAddr, hp, hh]
  · intro d hd
    have hd' : d ∈ g.dormant := by rwa [Gcfg.dormant, hp] at hd
    unfold Gcfg.v6
    rw [hh]
    exact ⟨h.tables.host_ok d (Or.inr hd'), h.valid d (Or.inr hd')⟩

theorem Base.writePending (h : Base g) (b : Bool) : Base { g with mapWritePending := b } :=
  h.bookkeeping (by constructor <;> intros <;> rfl) rfl rfl rfl

/-- The clock, the outcome of allocations and the bookkeeping of map writes are not part of the invariant. -/
theorem Inv.bookkeeping (h : Inv g) {g' : Gcfg} (hs : SameMapped g g') (hp : g'.dynamicPool = g.dynamicPool)
    (hh : g'.hosts = g.hosts) (hN : g'.nHosts = g.nHosts) : Inv g' := by
  refine hs.inv h ?_ ?_
  · intro p hp'
    rw [hp] at hp'
    refine (h.pool p hp').regroup rfl rfl ?_ (fun _ => Iff.rfl) (h.pool p hp').nodup_leases hh hN hs.localAddr4
    funext r
    cases r <;> simp only [Gcfg.run, Gcfg.freeAddr, hp, hh]
  · intro d hd
    have hd' : d ∈ g.dormant := by rwa [Gcfg.dormant, hp] at hd
    unfold Gcfg.v6
    rw [hh]
    exact ⟨h.maps.host_ok d (Or.inr hd'), h.valid d (Or.inr hd'), h.link.dormant d hd'⟩

theorem Inv.writePending (h : Inv g) (b : Bool) : Inv { g with mapWritePending := b } :=
  h.bookkeeping (by constructor <;> intros <;> rfl) rfl rfl rfl

/-! ### A dormant lease for another host -/

/-- A dormant lease whose IPv6 address is replaced. -/
def readdress (g : Gcfg) (d : Nat) (x : In6) : Gcfg :=
  g.setHost d { g.hosts d with map6 := { (g.hosts d).map6 with addr := x } }

theorem hosts_readdress_of_ne {d e : Nat} (x : In6) (h : e ≠ d) : (readdress g d x).hosts e = g.hosts e := by
  simp [readdress, Gcfg.setHost, Function.update_of_ne h]

theorem hosts_readdress_self {d : Nat} (x : In6) :
    (readdress g d x).hosts d = { g.hosts d with map6 := { (g.hosts d).map6 with addr := x } } := by
  simp [readdress, Gcfg.setHost]

theorem v4_readdress (d e : Nat) (x : In6) : (readdress g d x).v4 e = g.v4 e := by
  unfold Gcfg.v4
  by_cases he : e = d
  · subst he
    rw [hosts_readdress_self]
  · rw [hosts_readdress_of_ne x he]

theorem v6_readdress_self {d : Nat} (x : In6) : (readdress g d x).v6 d = x := by
  rw [Gcfg.v6, hosts_readdress_self]

theorem sameMapped_readdress (h : Base g) {d : Nat} (hd : d ∈ g.dormant) (x : In6) :
    SameMapped g (readdress g d x) := by
  have hne : ∀ e ∈ g.mapped, (readdress g d x).hosts e = g.hosts e := by
    intro e he
    refine hosts_readdress_of_ne x ?_
    rintro rfl
    exact h.not_dormant he hd
  constructor <;> first | rfl | intro e he; rw [hne e he]

private theorem runsInv_readdress (h : RunsInv g p) (d : Nat) (x : In6) : RunsInv (readdress g d x) p := by
  have hr : (readdress g d x).run = g.run := by
    funext r
    cases r with
    | head => rfl
    | host e =>
      by_cases he : e = d
      · subst he
        simp only [Gcfg.run, Gcfg.freeAddr, hosts_readdress_self]
      · simp only [Gcfg.run, Gcfg.freeAddr, hosts_readdress_of_ne x he]
  refine ⟨h.stop_le, by rw [hr]; exact h.chain, h.head, h.nodup, h.hosts, h.nodup_leases, h.lease_lt, ?_⟩
  intro e he
  rw [v4_readdress, ← h.addr e he]
  by_cases hed : e = d
  · subst hed
    rw [hosts_readdress_self]
  · rw [hosts_readdress_of_ne x hed]

/-- A readdressed lease is well formed, and so are the other idle ones. -/
private theorem idle_readdress (h : Base g) {d : Nat} {x : In6} (hv : validateIp6Addr x = none) {e : Nat}
    (he : e ∈ g.dormant) :
    HostOk ((readdress g d x).hosts e) ∧ validateIp6Addr ((readdress g d x).v6 e) = none := by
  by_cases hed : e = d
  · subst hed
    have hok := h.tables.host_ok e (Or.inr he)
    refine ⟨⟨?_, ?_⟩, ?_⟩
    · rw [hosts_readdress_self]
      exact hok.map4
    · rw [hosts_readdress_self]
      have := hok.map6
      rw [this]
    · rw [v6_readdress_self]
      exact hv
  · unfold Gcfg.v6
    rw [hosts_readdress_of_ne x hed]
    exact ⟨h.tables.host_ok e (Or.inr he), h.valid e (Or.inr he)⟩

/-- Giving a dormant lease to another host keeps the base invariant. -/
theorem Base.readdress (h : Base g) {d : Nat} (hd : d ∈ g.dormant) {x : In6} (hv : validateIp6Addr x = none) :
    Base (readdress g d x) :=
  (sameMapped_readdress h hd x).base h (fun p hp => runsInv_readdress (h.runs p hp) d x)
    fun _ he => idle_readdress h hv he

/-- Giving a dormant lease to a host that has none keeps the invariant. -/
theorem Inv.readdress (h : Inv g) {d : Nat} (hd : d ∈ g.dormant) {x : In6} (hv : validateIp6Addr x = none)
    (hf : findMap6 g x = none) (hn : ∀ e ∈ g.dormant, g.v6 e ≠ x) : Inv (readdress g d x) := by
  have hm : ∀ e ∈ g.mapped, g.v6 e ≠ x := by
    rintro e he rfl
    rw [h.maps.find6_lease he] at hf
    cases hf
  refine (sameMapped_readdress h.base hd x).inv h ?_ ?_
  · intro p hp
    have hp' : g.dynamicPool = some p := hp
    have hpool := h.pool p hp'
    have hnone : ∀ e, e ∈ p.mappedList ∨ e ∈ p.dormantList → g.v6 e ≠ x := by
      intro e he
      rcases he with he | he
      · exact hm e (by rw [mapped_of_pool hp']; exact he)
      · exact hn e (by rw [dormant_of_pool hp']; exact he)
    refine ⟨runsInv_readdress hpool.toRunsInv d x, ?_, ?_⟩
    · intro e e' he he' hv6
      have hv6' : ∀ c, c ≠ d → (Tayga.readdress g d x).v6 c = g.v6 c := by
        intro c hc
        rw [Gcfg.v6, hosts_readdress_of_ne x hc, Gcfg.v6]
      by_cases hed : e = d <;> by_cases hed' : e' = d
      · rw [hed, hed']
      · rw [hed, v6_readdress_self, hv6' e' hed'] at hv6
        exact absurd hv6.symm (hnone e' he')
      · rw [hed', v6_readdress_self, hv6' e hed] at hv6
        exact absurd hv6 (hnone e he)
      · rw [hv6' e hed, hv6' e' hed'] at hv6
        exact hpool.v6_inj e e' he he' hv6
    · intro e he
      rw [v4_readdress]
      exact hpool.not_own e he
  · intro e he
    obtain ⟨hok, hval⟩ := idle_readdress h.base (d := d) hv he
    refine ⟨hok, hval, ?_⟩
    by_cases hed : e = d
    · subst hed
      rw [hosts_readdress_self]
      exact h.link.dormant e hd
    · rw [hosts_readdress_of_ne x hed]
      exact h.link.dormant e he

end Tayga
