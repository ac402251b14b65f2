import Tayga.MapList

/-!
# The address cache

The cache keeps address pairs found by the slow paths.  Every active entry is filed in one bucket of each of the
two hash tables, so one pair answers lookups in both directions.  An entry unused for `cacheMaxAge` seconds goes
back to `cachePool`, and if a lease points at it the lease takes over its time of last use (`reportAgeout`).
-/

namespace Tayga

variable (g : Gcfg)

/-- `hash_ip4`. -/
def hashIp4 (addr4 : In4) : Nat := ((rawWord g.endian addr4 * g.rand 0) >>> (32 - g.hashBits)).toNat

/-- `hash_ip6`. -/
def hashIp6 (addr6 : In6) : Nat :=
  let x := fun i => rawWord g.endian (word6 addr6 i)
  let h := x 0 + g.rand 0
  let h := h ^^^ (x 1 + g.rand 1)
  let h := h ^^^ (x 2 + g.rand 2)
  let h := h ^^^ (x 3 + g.rand 3)
  (h >>> (32 - g.hashBits)).toNat

/-- `add_to_hash_table`: file entry `c` at the front of both buckets. -/
def addToHashTable (c : Nat) (hash4 hash6 : Nat) : Gcfg := { g with
  hashTable4 := Function.update g.hashTable4 hash4 (c :: g.hashTable4 hash4)
  hashTable6 := Function.update g.hashTable6 hash6 (c :: g.hashTable6 hash6) }

/-- `list_del` on the two hash links of entry `c`. -/
def delFromHashTable (c : Nat) : Gcfg := { g with
  hashTable4 := fun h => (g.hashTable4 h).filter (· ≠ c)
  hashTable6 := fun h => (g.hashTable6 h).filter (· ≠ c) }

/-- `create_cache`: empty tables; a first call fills the pool, a later one files the active entries again. -/
def createCache : Except Error Gcfg :=
  if g.oom then .error .reject
  else
    let g' := { g with hashTable4 := fun _ => [], hashTable6 := fun _ => [] }
    if g.cachePool = [] ∧ g.cacheActive = [] then
      .ok { g' with entries := fun _ => ⟨0, 0, 0, false, 0⟩, cachePool := List.range g.cacheSize }
    else
      .ok (g.cacheActive.foldl (fun s c =>
        addToHashTable s c (hashIp4 s (s.entries c).addr4) (hashIp6 s (s.entries c).addr6)) g')

/-- `c->last_use = now`. -/
def touch (c : Nat) : Gcfg := g.setEntry c { g.entries c with lastUse := g.now }

/-! ### Probes -/

/-- The entry a bucket search finds for an IPv4 address. -/
def cached4 (addr4 : In4) : Option Nat :=
  (g.hashTable4 (hashIp4 g addr4)).find? fun c => addr4 = (g.entries c).addr4

/-- The entry a bucket search finds for an IPv6 address. -/
def cached6 (addr6 : In6) : Option Nat :=
  (g.hashTable6 (hashIp6 g addr6)).find? fun c => addr6 = (g.entries c).addr6

/-- The cache section at the head of `map_ip4_to_ip6`: a hit refreshes the entry and answers. -/
def probe4 (addr4 : In4) : Option (In6 × Gcfg) :=
  if g.cacheSize = 0 then none
  else (cached4 g addr4).map fun c => ((g.entries c).addr6, touch g c)

/-- The cache section at the head of `map_ip6_to_ip4`. -/
def probe6 (addr6 : In6) : Option (In4 × Gcfg) :=
  if g.cacheSize = 0 then none
  else (cached6 g addr6).map fun c => ((g.entries c).addr4, touch g c)

/-! ### Insertion -/

/-- Give the pair the entry `c`, the first of `cache_pool`, and file it; `pool` is the rest of the pool. -/
def fillEntry (c : Nat) (pool : List Nat) (addr4 : In4) (addr6 : In6) (hash4 hash6 : Nat) : Gcfg :=
  addToHashTable { g.setEntry c ⟨addr6, addr4, g.now, false, 1⟩ with
    cachePool := pool
    cacheActive := c :: g.cacheActive } c hash4 hash6

/-- `cache_insert`: the entry that already holds the pair, or a fresh one, unless the pool is empty. -/
def cacheInsert (addr4 : In4) (addr6 : In6) (hash4 hash6 : Nat) : Option Nat × Gcfg :=
  match (g.hashTable4 hash4).find? fun c => (g.entries c).addr4 = addr4 ∧ (g.entries c).addr6 = addr6 with
  | some c => (some c, touch g c)
  | none => match g.cachePool with
    | [] => (none, g)
    | c :: pool => (some c, fillEntry g c pool addr4 addr6 hash4 hash6)

/-! ### Ageing -/

/-- `report_ageout`: the lease that points at entry `c` takes over its time of last use. -/
def reportAgeout (c : Nat) : Gcfg :=
  match findMap4 g (g.entries c).addr4 with
  | some (.host i) =>
    let d := g.hosts i
    if d.cacheEntry = some c then
      g.setHost i { d with lastUse := (g.entries c).lastUse, cacheEntry := none }
    else g
  | _ => g

/-- Take entry `c` out of the cache and put it in front of the pool, reporting it if it is flagged. -/
def releaseEntry (c : Nat) : Gcfg :=
  let g' := if (g.entries c).repAgeout then reportAgeout g c else g
  delFromHashTable { g' with
    cacheActive := g'.cacheActive.filter (· ≠ c)
    cachePool := c :: g'.cachePool } c

/-- `addrmap_maint`: release every entry that was not used for `cacheMaxAge` seconds. -/
def addrmapMaint : Gcfg :=
  g.cacheActive.foldl (fun s c =>
    if (s.entries c).lastUse + cacheMaxAge < s.now then releaseEntry s c else s) g

/-- The flush at the end of `addrmap_reload`: release every entry. -/
def flushCache : Gcfg := g.cacheActive.foldl releaseEntry g

end Tayga
