import Mathlib.Logic.Function.Basic
import Tayga.Addr

/-!
# The state of the address mapper

`Gcfg` is the source's global `gcfg`: the configured values, the map entries, the two ordered map lists, the
dynamic pool and the address cache.  Map entries and cache entries are named by index where the source names them
by pointer; a list of entries is the list of their names, front first.  `now` and the outcome of the next
allocation are part of the state, since every operation reads them.
-/

namespace Tayga

/-! ### Map entries -/

/-- `MAP_TYPE_*`. -/
inductive MapType where
  | static
  | rfc6052
  | dynamicPool
  | dynamicHost
deriving Repr, DecidableEq

/-- `struct map4`. -/
structure Map4 where
  addr : In4
  mask : In4
  prefixLen : Nat
  type : MapType
deriving Repr, DecidableEq

/-- `struct map6`. -/
structure Map6 where
  addr : In6
  mask : In6
  prefixLen : Nat
  type : MapType
deriving Repr, DecidableEq

/-- `MAP_ORIGIN_*`. -/
inductive MapOrigin where
  | self
  | conffile
  | mapfile
deriving Repr, DecidableEq

/-- `struct map_static`. -/
structure MapStatic where
  map4 : Map4
  map6 : Map6
  lineNo : Nat
  origin : MapOrigin
deriving Repr, DecidableEq

/-- `struct free_addr`: an address in use (host order) and the number of free addresses after it. -/
structure FreeAddr where
  addr : Nat
  count : Nat
deriving Repr, DecidableEq

/-- `struct map_dynamic`. -/
structure MapDynamic where
  map4 : Map4
  map6 : Map6
  cacheEntry : Option Nat
  lastUse : Int
  free : FreeAddr
deriving Repr, DecidableEq

/-- A pointer to the `map4` or `map6` half of an entry: a static entry, the pool, or a lease. -/
inductive MapRef where
  | static (i : Nat)
  | pool
  | host (i : Nat)
deriving Repr, DecidableEq

/-- A pointer to a `free_addr`: the pool's `free_head`, or the one inside a lease. -/
inductive FreeRef where
  | head
  | host (i : Nat)
deriving Repr, DecidableEq

/-- `struct dynamic_pool`. -/
structure DynamicPool where
  map4 : Map4
  mappedList : List Nat
  dormantList : List Nat
  freeList : List FreeRef
  freeHead : FreeAddr
deriving Repr, DecidableEq

/-! ### Cache entries -/

/-- `struct cache_entry`; of the flag bits only `CACHE_F_REP_AGEOUT` is ever read. -/
structure CacheEntry where
  addr6 : In6
  addr4 : In4
  lastUse : Int
  repAgeout : Bool
  ip4Ident : Nat
deriving Repr, DecidableEq

/-! ### The global state -/

/-- `UDP_CKSUM_*`. -/
inductive UdpCksumMode where
  | drop
  | calc
  | fwd
deriving Repr, DecidableEq

/-- `struct config`. -/
structure Gcfg where
  endian : Endian
  -- tunnel parameters
  tundev : List Char
  mtu : Nat
  vnetHdrSz : Nat
  tunHasUso : Bool
  -- map parameters
  localAddr4 : In4
  localAddr6 : In6
  wkpfStrict : Bool
  mapsImmutable : Bool
  statics : Nat → MapStatic
  nStatics : Nat
  hosts : Nat → MapDynamic
  nHosts : Nat
  map4List : List MapRef
  map6List : List MapRef
  -- dynamic map parameters
  dataDir : List Char
  dynMinLease : Int
  dynMaxLease : Int
  maxCommitDelay : Int
  dynamicPool : Option DynamicPool
  lastMapWrite : Int
  mapWritePending : Bool
  mapFile : List Char
  -- cache
  hashBits : Nat
  cacheSize : Nat
  rand : Nat → BitVec 32
  entries : Nat → CacheEntry
  cachePool : List Nat
  cacheActive : List Nat
  hashTable4 : Nat → List Nat
  hashTable6 : Nat → List Nat
  -- other parameters
  ipv6OfflinkMtu : Nat
  udpCksumMode : UdpCksumMode
  logOpts : Nat
  workers : Int
  runtimeDirConfigured : Bool
  -- the clock, and whether the next allocation fails
  now : Int
  oom : Bool

/-- `CACHE_MAX_AGE`: seconds of silence before a pair leaves the cache. -/
def cacheMaxAge : Int := 120

variable (g : Gcfg)

/-- The `map4` half a pointer points to.  There is one pool, so `pool` outside a pool is never dereferenced. -/
def Gcfg.map4 : MapRef → Map4
  | .static i => (g.statics i).map4
  | .pool => match g.dynamicPool with
    | some p => p.map4
    | none => ⟨0, 0, 0, .dynamicPool⟩
  | .host i => (g.hosts i).map4

/-- The `map6` half a pointer points to.  The pool has none. -/
def Gcfg.map6 : MapRef → Map6
  | .static i => (g.statics i).map6
  | .pool => ⟨0, 0, 0, .dynamicPool⟩
  | .host i => (g.hosts i).map6

/-- The `free_addr` a pointer points to. -/
def Gcfg.freeAddr : FreeRef → FreeAddr
  | .head => match g.dynamicPool with
    | some p => p.freeHead
    | none => ⟨0, 0⟩
  | .host i => (g.hosts i).free

/-- Overwrite one lease. -/
def Gcfg.setHost (i : Nat) (d : MapDynamic) : Gcfg := { g with hosts := Function.update g.hosts i d }

/-- Overwrite one static entry. -/
def Gcfg.setStatic (i : Nat) (s : MapStatic) : Gcfg := { g with statics := Function.update g.statics i s }

/-- Overwrite one cache entry. -/
def Gcfg.setEntry (c : Nat) (e : CacheEntry) : Gcfg := { g with entries := Function.update g.entries c e }

end Tayga
