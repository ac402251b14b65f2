import Tayga.Resolve

/-!
# What cache operations leave alone

Probes, publications and ageing change cache entries and, in a lease, its time of last use and its cache pointer.
`SameMaps` says that everything else is as before; the map and pool invariants, the hashes and the slow paths depend
on nothing more.
-/

namespace Tayga

/-- The two states differ at most in the cache, the clock and the bookkeeping of map writes; a lease may differ in
its time of last use and its cache pointer. -/
structure SameMaps (g g' : Gcfg) : Prop where
  endian : g'.endian = g.endian
  localAddr4 : g'.localAddr4 = g.localAddr4
  localAddr6 : g'.localAddr6 = g.localAddr6
  wkpfStrict : g'.wkpfStrict = g.wkpfStrict
  statics : g'.statics = g.statics
  nStatics : g'.nStatics = g.nStatics
  nHosts : g'.nHosts = g.nHosts
  map4List : g'.map4List = g.map4List
  map6List : g'.map6List = g.map6List
  dynamicPool : g'.dynamicPool = g.dynamicPool
  cacheSize : g'.cacheSize = g.cacheSize
  hashBits : g'.hashBits = g.hashBits
  rand : g'.rand = g.rand
  host4 : ∀ d, (g'.hosts d).map4 = (g.hosts d).map4
  host6 : ∀ d, (g'.hosts d).map6 = (g.hosts d).map6
  free : ∀ d, (g'.hosts d).free = (g.hosts d).free

namespace SameMaps

variable {g g' g'' : Gcfg}

theorem refl (g : Gcfg) : SameMaps g g := by
  constructor <;> simp

theorem trans (h : SameMaps g g') (h' : SameMaps g' g'') : SameMaps g g'' where
  endian := h'.endian.trans h.endian
  localAddr4 := h'.localAddr4.trans h.localAddr4
  localAddr6 := h'.localAddr6.trans h.localAddr6
  wkpfStrict := h'.wkpfStrict.trans h.wkpfStrict
  statics := h'.statics.trans h.statics
  nStatics := h'.nStatics.trans h.nStatics
  nHosts := h'.nHosts.trans h.nHosts
  map4List := h'.map4List.trans h.map4List
  map6List := h'.map6List.trans h.map6List
  dynamicPool := h'.dynamicPool.trans h.dynamicPool
  cacheSize := h'.cacheSize.trans h.cacheSize
  hashBits := h'.hashBits.trans h.hashBits
  rand := h'.rand.trans h.rand
  host4 d := (h'.host4 d).trans (h.host4 d)
  host6 d := (h'.host6 d).trans (h.host6 d)
  free d := (h'.free d).trans (h.free d)

/-- A change of one lease in its time of last use and its cache pointer. -/
theorem setHost (g : Gcfg) (d : Nat) (h : MapDynamic) (h4 : h.map4 = (g.hosts d).map4)
    (h6 : h.map6 = (g.hosts d).map6) (hf : h.free = (g.hosts d).free) : SameMaps g (g.setHost d h) := by
  constructor <;> try rfl
  all_goals
    intro e
    by_cases he : e = d
    · subst he
      simp [Gcfg.setHost, h4, h6, hf]
    · simp [Gcfg.setHost, Function.update_of_ne he]

theorem setEntry (g : Gcfg) (c : Nat) (e : CacheEntry) : SameMaps g (g.setEntry c e) := by
  constructor <;> simp [Gcfg.setEntry]

/-! ### What depends on nothing more -/

theorem map4 (h : SameMaps g g') : g'.map4 = g.map4 := by
  funext r
  cases r with
  | static i => simp only [Gcfg.map4, h.statics]
  | pool => simp only [Gcfg.map4, h.dynamicPool]
  | host d => simp only [Gcfg.map4, h.host4]

theorem map6 (h : SameMaps g g') : g'.map6 = g.map6 := by
  funext r
  cases r with
  | static i => simp only [Gcfg.map6, h.statics]
  | pool => rfl
  | host d => simp only [Gcfg.map6, h.host6]

theorem v4 (h : SameMaps g g') (d : Nat) : g'.v4 d = g.v4 d := by simp only [Gcfg.v4, h.host4]

theorem v6 (h : SameMaps g g') (d : Nat) : g'.v6 d = g.v6 d := by simp only [Gcfg.v6, h.host6]

theorem mapped (h : SameMaps g g') : g'.mapped = g.mapped := by simp only [Gcfg.mapped, h.dynamicPool]

theorem dormant (h : SameMaps g g') : g'.dormant = g.dormant := by simp only [Gcfg.dormant, h.dynamicPool]

theorem findMap4 (h : SameMaps g g') (a : In4) : findMap4 g' a = findMap4 g a := by
  simp only [Tayga.findMap4, h.map4List, h.map4]

theorem findMap6 (h : SameMaps g g') (x : In6) : findMap6 g' x = findMap6 g x := by
  simp only [Tayga.findMap6, h.map6List, h.map6]

theorem hashIp4 (h : SameMaps g g') (a : In4) : hashIp4 g' a = hashIp4 g a := by
  simp only [Tayga.hashIp4, h.endian, h.rand, h.hashBits]

theorem hashIp6 (h : SameMaps g g') (x : In6) : hashIp6 g' x = hashIp6 g x := by
  simp only [Tayga.hashIp6, h.endian, h.rand, h.hashBits]

theorem appendToPrefix (h : SameMaps g g') (a : In4) (p : In6) (len : Nat) :
    appendToPrefix g' a p len = appendToPrefix g a p len := by
  simp only [Tayga.appendToPrefix, h.endian, h.wkpfStrict]

theorem extractFromPrefix (h : SameMaps g g') (x : In6) (len : Nat) :
    extractFromPrefix g' x len = extractFromPrefix g x len := by
  simp only [Tayga.extractFromPrefix, extractBits, h.endian]

theorem resolve4 (h : SameMaps g g') (a : In4) : resolve4 g' a = resolve4 g a := by
  simp only [Tayga.resolve4, h.findMap4]
  cases Tayga.findMap4 g a with
  | none => rfl
  | some m =>
    cases m with
    | static i => simp only [switch4, h.statics, h.findMap6, h.localAddr6, h.appendToPrefix]
    | pool => rfl
    | host d => simp only [switch4, h.host6]

theorem resolve6 (h : SameMaps g g') (x : In6) : resolve6 g' x = resolve6 g x := by
  simp only [Tayga.resolve6, h.findMap6]
  cases Tayga.findMap6 g x with
  | none => rfl
  | some m =>
    cases m with
    | static i => simp only [switch6, h.statics, h.findMap4, h.localAddr4, h.extractFromPrefix, h.wkpfStrict]
    | pool => rfl
    | host d => simp only [switch6, h.host4]

theorem canonical6 (h : SameMaps g g') (x : In6) : canonical6 g' x = canonical6 g x := by
  simp only [Tayga.canonical6, h.findMap6, h.statics]

/-! ### Invariants -/

private theorem isOwn (h : SameMaps g g') {i : Nat} (ho : IsOwn g i) : IsOwn g' i :=
  ⟨by rw [h.statics, h.localAddr4]; exact ho.map4, by rw [h.statics, h.localAddr6]; exact ho.map6,
    by rw [h.statics]; exact ho.origin⟩

theorem tablesInv (h : SameMaps g g') (hm : TablesInv g) : TablesInv g' where
  list4 := by rw [h.map4List, h.map4]; exact hm.list4
  list6 := by rw [h.map6List, h.map6]; exact hm.list6
  static_lt := by rw [h.map4List, h.nStatics]; exact hm.static_lt
  static_ok := by rw [h.map4List, h.statics]; exact hm.static_ok
  valid6 := by rw [h.map6List, h.statics]; exact hm.valid6
  pair64 := by rw [h.map4List, h.map6List]; exact hm.pair64
  pair46 i hi := by
    rw [h.map4List] at hi
    rw [h.map6List]
    exact (hm.pair46 i hi).imp_right h.isOwn
  own := by
    obtain ⟨i, hi, hown, h6⟩ := hm.own
    refine ⟨i, by rw [h.map4List]; exact hi, h.isOwn hown, ?_⟩
    simp only [DerivedOwn, h.map6List, h.statics, h.localAddr4, h.localAddr6, h.appendToPrefix]
    exact h6
  pool4 := by rw [h.map4List, h.dynamicPool]; exact hm.pool4
  pool6 := by rw [h.map6List]; exact hm.pool6
  host4 := by rw [h.map4List, h.mapped]; exact hm.host4
  host6 := by rw [h.map6List, h.mapped]; exact hm.host6
  host_ok := by
    rw [h.mapped, h.dormant]
    intro d hd
    have := hm.host_ok d hd
    exact ⟨by rw [h.host4]; exact this.map4, by rw [h.host6]; exact this.map6⟩

theorem mapsInv (h : SameMaps g g') (hm : MapsInv g) : MapsInv g' where
  toTablesInv := h.tablesInv hm.toTablesInv
  listed4 := by rw [h.map4List, h.mapped]; exact hm.listed4
  listed6 := by rw [h.map6List, h.mapped]; exact hm.listed6

theorem runsInv (h : SameMaps g g') {p : DynamicPool} (hp : RunsInv g p) : RunsInv g' p where
  stop_le := hp.stop_le
  chain := by
    have hr : g'.run = g.run := by
      funext r
      cases r with
      | head => simp only [Gcfg.run, Gcfg.freeAddr, h.dynamicPool]
      | host d => simp only [Gcfg.run, Gcfg.freeAddr, h.free]
    rw [hr]
    exact hp.chain
  head := hp.head
  nodup := hp.nodup
  hosts := hp.hosts
  nodup_leases := hp.nodup_leases
  lease_lt := by rw [h.nHosts]; exact hp.lease_lt
  addr d hd := by rw [h.free, h.v4]; exact hp.addr d hd

theorem poolInv (h : SameMaps g g') {p : DynamicPool} (hp : PoolInv g p) : PoolInv g' p where
  toRunsInv := h.runsInv hp.toRunsInv
  v6_inj d e hd he := by rw [h.v6, h.v6]; exact hp.v6_inj d e hd he
  not_own d hd := by rw [h.v4, h.localAddr4]; exact hp.not_own d hd

theorem leasesValid (h : SameMaps g g') (hv : LeasesValid g) : LeasesValid g' := by
  unfold LeasesValid
  rw [h.mapped, h.dormant]
  intro d hd
  rw [h.v6]
  exact hv d hd

end SameMaps

end Tayga
