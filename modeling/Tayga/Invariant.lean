import Tayga.Codec
import Tayga.Dynamic
import Tayga.MapLists
import Tayga.Lib.FreeRuns

/-!
# The invariant of the address mapper

What the map lists, the dynamic pool and the cache keep between operations.  `MapsInv` is about the two lists and
the entries in them, `PoolInv` about the leases and the free runs of the pool, `CacheInv` about the cache as a
structure, and `Coherent` and `LinkInv` tie the three together: a cached pair is what the slow path finds, and a
lease knows the cache entry of its pair.
-/

namespace Tayga

open FreeRuns

variable (g : Gcfg)

/-! ### Leases -/

/-- The leases in use. -/
def Gcfg.mapped : List Nat := match g.dynamicPool with | some p => p.mappedList | none => []

/-- The idle leases. -/
def Gcfg.dormant : List Nat := match g.dynamicPool with | some p => p.dormantList | none => []

/-- The IPv4 address of a lease. -/
def Gcfg.v4 (d : Nat) : In4 := (g.hosts d).map4.addr

/-- The IPv6 address of a lease. -/
def Gcfg.v6 (d : Nat) : In6 := (g.hosts d).map6.addr

/-- Both halves of a lease are host entries. -/
structure HostOk (h : MapDynamic) : Prop where
  map4 : h.map4 = ⟨h.map4.addr, ip4Mask 32, 32, .dynamicHost⟩
  map6 : h.map6 = ⟨h.map6.addr, ip6Mask 128, 128, .dynamicHost⟩

/-! ### The map lists -/

/-- A static entry is an explicit map or an RFC 6052 prefix, with fitting networks. -/
structure StaticOk (s : MapStatic) : Prop where
  fits : s.Fits
  kind : (s.map4.type = .static ∧ s.map6.type = .static) ∨
    (s.map4.type = .rfc6052 ∧ s.map6.type = .rfc6052 ∧ s.map4.prefixLen = 0 ∧ s.map6.prefixLen ∈ prefixLens)

/-- The translator's IPv6 address was derived from its IPv4 address and a configured prefix; with `wkpf-strict` off
a derivation that fails leaves it zero. -/
def DerivedOwn : Prop := ∃ j, .static j ∈ g.map6List ∧ (g.statics j).map6.type = .rfc6052 ∧
  (g.localAddr6 = 0 ∨
    appendToPrefix g g.localAddr4 (g.statics j).map6.addr (g.statics j).map6.prefixLen = .ok g.localAddr6)

/-- Static entry `i` is the translator's own. -/
structure IsOwn (i : Nat) : Prop where
  map4 : (g.statics i).map4 = ⟨g.localAddr4, ip4Mask 32, 32, .static⟩
  map6 : (g.statics i).map6 = ⟨g.localAddr6, ip6Mask 128, 128, .static⟩
  origin : (g.statics i).origin = .self

/-- The two lists are well formed, each static entry has both halves in them, exempt ones excepted, and the leases in
them are in use. -/
structure ListsInv (exempt : Nat → Prop) : Prop where
  list4 : ListWf4 g.map4 g.map4List
  list6 : ListWf6 g.map6 g.map6List
  static_lt : ∀ i, .static i ∈ g.map4List → i < g.nStatics
  static_ok : ∀ i, .static i ∈ g.map4List → StaticOk (g.statics i)
  valid6 : ∀ i, .static i ∈ g.map6List → (g.statics i).map6.prefixLen ≠ 0 →
    validateIp6Addr (g.statics i).map6.addr = none
  pair64 : ∀ i, .static i ∈ g.map6List → .static i ∈ g.map4List
  pair46 : ∀ i, .static i ∈ g.map4List → .static i ∈ g.map6List ∨ exempt i
  pool4 : .pool ∈ g.map4List ↔ g.dynamicPool.isSome
  pool6 : .pool ∉ g.map6List
  host4 : ∀ d, .host d ∈ g.map4List → d ∈ g.mapped
  host6 : ∀ d, .host d ∈ g.map6List → d ∈ g.mapped
  host_ok : ∀ d, d ∈ g.mapped ∨ d ∈ g.dormant → HostOk (g.hosts d)

/-- The lists are well formed and the translator's own entry is in the IPv4 list; only its IPv6 half may be missing,
when its address is derived. -/
structure TablesInv : Prop extends ListsInv g (IsOwn g) where
  own : ∃ i, .static i ∈ g.map4List ∧ IsOwn g i ∧ (.static i ∈ g.map6List ∨ DerivedOwn g)

/-- The invariant of the map lists: every lease in use has both halves in them. -/
structure MapsInv : Prop extends TablesInv g where
  listed4 : ∀ d ∈ g.mapped, .host d ∈ g.map4List
  listed6 : ∀ d ∈ g.mapped, .host d ∈ g.map6List

/-! ### The pool -/

/-- A free run as the pair of its start and its number of free addresses. -/
def Gcfg.run (r : FreeRef) : Nat × Nat := ((g.freeAddr r).addr, (g.freeAddr r).count)

/-- The free runs cut the pool's network at the leases. -/
structure RunsInv (p : DynamicPool) : Prop where
  stop_le : p.map4.addr.toNat + 2 ^ (32 - p.map4.prefixLen) ≤ 2 ^ 32
  chain : Chain (p.map4.addr.toNat + 2 ^ (32 - p.map4.prefixLen)) p.map4.addr.toNat (p.freeList.map g.run)
  head : p.freeList.head? = some .head
  nodup : p.freeList.Nodup
  hosts : ∀ d, .host d ∈ p.freeList ↔ d ∈ p.mappedList ∨ d ∈ p.dormantList
  nodup_leases : (p.mappedList ++ p.dormantList).Nodup
  lease_lt : ∀ d, d ∈ p.mappedList ∨ d ∈ p.dormantList → d < g.nHosts
  addr : ∀ d, d ∈ p.mappedList ∨ d ∈ p.dormantList → (g.hosts d).free.addr = (g.v4 d).toNat

/-- The runs are in order, no two leases share an IPv6 address, and none has the translator's IPv4 address. -/
structure PoolInv (p : DynamicPool) : Prop extends RunsInv g p where
  v6_inj : ∀ d e, d ∈ p.mappedList ∨ d ∈ p.dormantList → e ∈ p.mappedList ∨ e ∈ p.dormantList →
    g.v6 d = g.v6 e → d = e
  not_own : ∀ d, d ∈ p.mappedList ∨ d ∈ p.dormantList → g.v4 d ≠ g.localAddr4

/-- The IPv6 address of every lease is one the translator accepts as a source. -/
def LeasesValid : Prop := ∀ d, d ∈ g.mapped ∨ d ∈ g.dormant → validateIp6Addr (g.v6 d) = none

/-! ### The cache -/

/-- Every cache entry is free or active, and an active entry is filed in the buckets of its two addresses. -/
structure CacheInv : Prop where
  size : g.cacheSize = 0 → g.cachePool = [] ∧ g.cacheActive = []
  nodup : (g.cachePool ++ g.cacheActive).Nodup
  hash4 : ∀ h c, c ∈ g.hashTable4 h ↔ c ∈ g.cacheActive ∧ hashIp4 g (g.entries c).addr4 = h
  hash6 : ∀ h c, c ∈ g.hashTable6 h ↔ c ∈ g.cacheActive ∧ hashIp6 g (g.entries c).addr6 = h
  unique : ∀ c ∈ g.cacheActive, ∀ c' ∈ g.cacheActive, (g.entries c).addr4 = (g.entries c').addr4 →
    (g.entries c).addr6 = (g.entries c').addr6 → c = c'

/-- The cache holds the pair of `a` and `x`. -/
def Cached (a : In4) (x : In6) : Prop := ∃ c ∈ g.cacheActive, (g.entries c).addr4 = a ∧ (g.entries c).addr6 = x

/-- Every cached pair is what the IPv4 slow path finds. -/
def Coherent : Prop := ∀ a x, Cached g a x → ∃ l, resolve4 g a = .ok ⟨x, l, true⟩

/-- A mapped lease points at the active entry of its address, which is flagged; a dormant one at none. -/
structure LinkInv : Prop where
  link : ∀ d ∈ g.mapped, ∀ c, (g.hosts d).cacheEntry = some c ↔ c ∈ g.cacheActive ∧ (g.entries c).addr4 = g.v4 d
  flag : ∀ d ∈ g.mapped, ∀ c, (g.hosts d).cacheEntry = some c → (g.entries c).repAgeout = true
  dormant : ∀ d ∈ g.dormant, (g.hosts d).cacheEntry = none

/-- The part of the invariant that every operation keeps, whatever the leases and the static maps are. -/
structure Base : Prop where
  tables : TablesInv g
  runs : ∀ p, g.dynamicPool = some p → RunsInv g p
  valid : LeasesValid g
  cache : CacheInv g

/-- The part of the invariant that does not say what the cached pairs mean. -/
structure Wf : Prop where
  maps : MapsInv g
  pool : ∀ p, g.dynamicPool = some p → PoolInv g p
  valid : LeasesValid g
  cache : CacheInv g
  link : LinkInv g

/-- The invariant. -/
structure Inv : Prop where
  maps : MapsInv g
  pool : ∀ p, g.dynamicPool = some p → PoolInv g p
  valid : LeasesValid g
  cache : CacheInv g
  coherent : Coherent g
  link : LinkInv g

variable {g}

theorem Wf.base (h : Wf g) : Base g := ⟨h.maps.toTablesInv, fun p hp => (h.pool p hp).toRunsInv, h.valid, h.cache⟩

theorem Inv.wf (h : Inv g) : Wf g := ⟨h.maps, h.pool, h.valid, h.cache, h.link⟩

theorem Wf.inv (h : Wf g) (hc : Coherent g) : Inv g := ⟨h.maps, h.pool, h.valid, h.cache, hc, h.link⟩

theorem Inv.base (h : Inv g) : Base g := h.wf.base

end Tayga
