import Tayga.Cache
import Tayga.Rfc6052

/-!
# Address lookup

`map_ip4_to_ip6` and `map_ip6_to_ip4`.  Each is a cache probe followed, on a miss, by a slow path under the map
mutex; the two are separate steps, since other threads run between them.  A slow path first finds the entry and
computes the other address (`resolve4`, `resolve6`: no effect on the state), then records the use of a lease and
files the pair (`publish`).  `map_ip6_to_ip4` also calls `assign_dynamic`, which is passed as `assign`.
-/

namespace Tayga

variable (g : Gcfg)

/-! ### Bit placement of a static map -/

/-- The host bits of `addr4` under a static map. -/
def suffix4 (m4 : Map4) (addr4 : In4) : BitVec 32 := addr4 &&& ~~~m4.mask

/-- What the general path ors into word `i` of the address. -/
def placedWord (pos bits : Nat) (suffix : BitVec 32) (i : Nat) : BitVec 32 :=
  let word := pos / 32
  let off := pos % 32
  let shifted : BitVec 64 := suffix.setWidth 64 <<< (64 - off - bits)
  if i = word then (shifted >>> 32).setWidth 32
  else if i = word + 1 ∧ 32 < off + bits then shifted.setWidth 32
  else 0

/-- Put `suffix` behind the `pos` prefix bits of `addr6`, word by word, as the general path does. -/
def placeBits (addr6 : In6) (pos bits : Nat) (suffix : BitVec 32) : In6 :=
  let w := fun i => word6 addr6 i ||| placedWord pos bits suffix i
  ofWords6 (w 0) (w 1) (w 2) (w 3)

/-- Read the `bits` bits of `addr6` behind its first `pos`, as the general path does. -/
def readBits (addr6 : In6) (pos bits : Nat) : BitVec 32 :=
  let word := pos / 32
  let off := pos % 32
  let raw : BitVec 64 := (word6 addr6 word).setWidth 64 <<< 32 |||
    (if 32 < off + bits then (word6 addr6 (word + 1)).setWidth 64 else 0)
  ((raw >>> (64 - off - bits)) &&& (BitVec.allOnes 64 >>> (64 - bits))).setWidth 32

/-- The IPv6 address of `addr4` under the static map `s`. -/
def staticAddr6 (s : MapStatic) (addr4 : In4) : In6 :=
  let suffix := suffix4 s.map4 addr4
  let bits := 32 - s.map4.prefixLen
  if s.map6.prefixLen + bits = 128 then s.map6.addr ||| ofWords6 0 0 0 suffix
  else if 0 < bits then placeBits s.map6.addr s.map6.prefixLen bits suffix
  else s.map6.addr

/-- The IPv4 address of `addr6` under the static map `s`. -/
def staticAddr4 (s : MapStatic) (addr6 : In6) : In4 :=
  let bits := 32 - s.map4.prefixLen
  let suffix :=
    if s.map6.prefixLen + bits = 128 then word6 addr6 3 &&& ~~~s.map4.mask
    else if 0 < bits then readBits addr6 s.map6.prefixLen bits
    else 0
  s.map4.addr ||| suffix

/-- `cache_pair`: only a static map with different numbers of host bits gives pairs that must not be cached. -/
def MapStatic.cachePair (s : MapStatic) : Bool := s.map6.prefixLen + (32 - s.map4.prefixLen) = 128

/-! ### Finding the other address -/

/-- What a slow path has found before it publishes: the address, the lease behind it, and `cache_pair`. -/
structure Found (α : Type) where
  addr : α
  lease : Option Nat
  cachePair : Bool
deriving Repr, DecidableEq

/-- The `switch` of `map_ip4_to_ip6` on the entry `find_map4` returned. -/
def switch4 (addr4 : In4) (m : MapRef) : Except Error (Found In6) :=
  match m with
  | .static i =>
    let s := g.statics i
    match s.map4.type with
    | .static =>
      let addr6 := staticAddr6 s addr4
      if 0 < 32 - s.map4.prefixLen then
        if (validateIp6Addr addr6).isSome ∨ g.localAddr6 = addr6 then .error .drop
        else if findMap6 g addr6 ≠ some (.static i) then .error .drop
        else .ok ⟨addr6, none, s.cachePair⟩
      else .ok ⟨addr6, none, s.cachePair⟩
    | .rfc6052 => match appendToPrefix g addr4 s.map6.addr s.map6.prefixLen with
      | .error e => .error e
      | .ok addr6 => .ok ⟨addr6, none, true⟩
    | _ => .error .drop
  | .pool => .error .reject
  | .host i => .ok ⟨(g.hosts i).map6.addr, some i, true⟩

/-- The slow path of `map_ip4_to_ip6` up to its effects. -/
def resolve4 (addr4 : In4) : Except Error (Found In6) :=
  match findMap4 g addr4 with
  | none => .error .reject
  | some m => switch4 g addr4 m

/-- The `switch` of `map_ip6_to_ip4` on the entry found or assigned. -/
def switch6 (addr6 : In6) (m : MapRef) : Except Error (Found In4) :=
  match m with
  | .static i =>
    let s := g.statics i
    match s.map6.type with
    | .static =>
      let addr4 := staticAddr4 s addr6
      if 0 < 32 - s.map4.prefixLen then
        if (validateIp4Addr addr4).isSome ∨ g.localAddr4 = addr4 then .error .drop
        else if findMap4 g addr4 ≠ some (.static i) then .error .drop
        else .ok ⟨addr4, none, s.cachePair⟩
      else .ok ⟨addr4, none, s.cachePair⟩
    | .rfc6052 => match extractFromPrefix g addr6 s.map6.prefixLen with
      | .error _ => .error .drop
      | .ok addr4 =>
        if isWkpf s.map6.addr && g.wkpfStrict && isPrivateIp4Addr addr4 then .error .reject
        else if findMap4 g addr4 ≠ some (.static i) then .error .drop
        else .ok ⟨addr4, none, true⟩
    | _ => .error .drop
  | .pool => .error .drop
  | .host i => .ok ⟨(g.hosts i).map4.addr, some i, true⟩

/-- The slow path of `map_ip6_to_ip4` up to its effects, when it does not assign. -/
def resolve6 (addr6 : In6) : Except Error (Found In4) :=
  match findMap6 g addr6 with
  | none => .error .reject
  | some m => switch6 g addr6 m

/-! ### Publishing the pair -/

/-- `d->last_use = now` for the lease behind the address, if there is one. -/
def useLease (lease : Option Nat) : Gcfg :=
  match lease with
  | some i => g.setHost i { g.hosts i with lastUse := g.now }
  | none => g

/-- `d->cache_entry = c` for the lease behind the address, and the flag on the entry, if there is one. -/
def pointLease (lease : Option Nat) (c : Option Nat) : Gcfg :=
  match lease with
  | some i =>
    let g := g.setHost i { g.hosts i with cacheEntry := c }
    match c with
    | some c => g.setEntry c { g.entries c with repAgeout := true }
    | none => g
  | none => g

/-- The cache section at the end of both slow paths: file the pair, and let the lease point at its entry. -/
def filePair (addr4 : In4) (addr6 : In6) (lease : Option Nat) : Gcfg :=
  let r := cacheInsert g addr4 addr6 (hashIp4 g addr4) (hashIp6 g addr6)
  pointLease r.2 lease r.1

/-- The end of both slow paths: a lease is used now, and the pair goes into the cache. -/
def publish (addr4 : In4) (addr6 : In6) (lease : Option Nat) (cachePair : Bool) : Gcfg :=
  let g := useLease g lease
  if g.cacheSize ≠ 0 ∧ cachePair then filePair g addr4 addr6 lease else g

/-- The slow path of `map_ip4_to_ip6`. -/
def slow4 (addr4 : In4) : Except Error In6 × Gcfg :=
  match resolve4 g addr4 with
  | .error e => (.error e, g)
  | .ok f => (.ok f.addr, publish g addr4 f.addr f.lease f.cachePair)

/-- The slow path of `map_ip6_to_ip4`, given what `assign_dynamic` does. -/
def slow6With (assign : Gcfg → In6 → Option Nat × Gcfg) (addr6 : In6) (dynAlloc : Bool) : Except Error In4 × Gcfg :=
  let (m, g) := match findMap6 g addr6 with
    | some m => (some m, g)
    | none =>
      if dynAlloc then
        let (d, g) := assign g addr6
        (d.map MapRef.host, g)
      else (none, g)
  match m with
  | none => (.error .reject, g)
  | some m => match switch6 g addr6 m with
    | .error e => (.error e, g)
    | .ok f => (.ok f.addr, publish g f.addr addr6 f.lease f.cachePair)

/-- `map_ip4_to_ip6`. -/
def mapIp4ToIp6 (addr4 : In4) : Except Error In6 × Gcfg :=
  match probe4 g addr4 with
  | some (addr6, g) => (.ok addr6, g)
  | none => slow4 g addr4

end Tayga
