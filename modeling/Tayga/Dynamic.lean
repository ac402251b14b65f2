import Tayga.Lookup

/-!
# The dynamic pool

Leases are cut out of the pool's free runs (`allocMapDynamic`), live on `mapped_list` while in use, on
`dormant_list` when idle, and are merged back into the run in front of them when they expire.  `assignDynamic`
prefers the dormant lease of the same host, then a free address near the hash of the host's address, then the
longest idle dormant lease.
-/

namespace Tayga

open FirstMatch

variable (g : Gcfg)

/-- Subtraction of `uint32_t`. -/
def sub32 (a b : Nat) : Nat := (a + 2 ^ 32 - b) % 2 ^ 32

/-- Overwrite a `free_addr`. -/
def Gcfg.setFree (f : FreeRef) (v : FreeAddr) : Gcfg :=
  match f with
  | .head => { g with dynamicPool := g.dynamicPool.map fun p => { p with freeHead := v } }
  | .host i => g.setHost i { g.hosts i with free := v }

/-! ### Moving leases -/

/-- `alloc_map_dynamic`: cut the run `f` at `addr4`; the new lease is named by the next free index. -/
def allocMapDynamic (pool : DynamicPool) (addr6 : In6) (addr4 : In4) (f : FreeRef) : Option (Nat × Gcfg) :=
  if g.oom then none
  else
    let a := addr4.toNat
    let v := g.freeAddr f
    let d := g.nHosts
    let g' := g.setHost d {
      map4 := ⟨addr4, ip4Mask 32, 32, .dynamicHost⟩
      map6 := ⟨addr6, ip6Mask 128, 128, .dynamicHost⟩
      cacheEntry := none
      lastUse := 0
      free := ⟨a, sub32 v.count (sub32 a v.addr)⟩ }
    let g' := { g' with
      nHosts := d + 1
      dynamicPool := some { pool with
        -- `list_add` puts the new run directly behind the one it was cut from
        freeList := pool.freeList.flatMap fun r => if r = f then [r, .host d] else [r] } }
    some (d, g'.setFree f ⟨v.addr, sub32 (sub32 a v.addr) 1⟩)

/-- `move_to_mapped`. -/
def moveToMapped (d : Nat) : Gcfg :=
  let g := tryInsertMap4 g (.host d)
  let g := tryInsertMap6 g (.host d)
  { g with dynamicPool := g.dynamicPool.map fun p => { p with
      dormantList := p.dormantList.filter (· ≠ d)
      mappedList := d :: p.mappedList.filter (· ≠ d) } }

/-- Where `move_to_dormant` puts a lease: behind the last one if that is not older, else before the first older
one. -/
def dormantInsert (d : Nat) (l : List Nat) : List Nat :=
  match l.getLast? with
  | none => [d]
  | some s =>
    if (g.hosts d).lastUse ≤ (g.hosts s).lastUse then l ++ [d]
    else insertBefore (fun s => (g.hosts s).lastUse < (g.hosts d).lastUse) d l

/-- `move_to_dormant`. -/
def moveToDormant (d : Nat) : Gcfg :=
  let g := delMap4 g (.host d)
  let g := delMap6 g (.host d)
  { g with dynamicPool := g.dynamicPool.map fun p => { p with
      mappedList := p.mappedList.filter (· ≠ d)
      dormantList := dormantInsert g d (p.dormantList.filter (· ≠ d)) } }

/-! ### Assignment -/

/-- The inner loop of the hash: fold the value until it fits in the host part. -/
def foldHash (max : BitVec 32) (prefixLen : Nat) : Nat → BitVec 32 → BitVec 32
  | 0, base => base
  | fuel + 1, base =>
    if base &&& ~~~max = 0 then base
    else foldHash max prefixLen fuel ((base &&& max) + (base >>> (32 - prefixLen)))

/-- The hash of an IPv6 address that picks the first address to try; each fold shrinks the value, so its own size
bounds the number of folds. -/
def dynamicHash (addr6 : In6) (max : BitVec 32) (prefixLen : Nat) : BitVec 32 :=
  (List.range 4).foldl (fun base i =>
    let base := base + rawWord g.endian (word6 addr6 i)
    foldHash max prefixLen base.toNat base) 0

/-- The `while` loop over one free run: the first address that belongs to the pool itself, skipping whole static
overrides. -/
def searchRun : Nat → Nat → Nat → Option Nat
  | 0, _, _ => none
  | fuel + 1, addr, stop =>
    if addr < stop then
      match findMap4 g (BitVec.ofNat 32 addr) with
      | some .pool => some addr
      | none => none
      | some m => searchRun fuel (((g.map4 m).addr ||| ~~~(g.map4 m).mask).toNat + 1) stop
    else none

/-- One pass over the free runs, restricted to the addresses in `[low, high)`. -/
def searchPass (freeList : List FreeRef) (low high : Nat) : Option (FreeRef × Nat) :=
  freeList.findSome? fun f =>
    let v := g.freeAddr f
    let addr := max (v.addr + 1) low
    let stop := min (v.addr + v.count + 1) high
    (searchRun g (stop - addr) addr stop).map fun a => (f, a)

/-- The search for a free address: from `first` to the end of the pool, then from its start to `first`. -/
def searchFree (pool : DynamicPool) (addr6 : In6) : Option (FreeRef × Nat) :=
  let max : BitVec 32 := 0xffffffff >>> pool.map4.prefixLen
  let base := dynamicHash g addr6 max pool.map4.prefixLen
  let first := pool.freeHead.addr ||| (base &&& max).toNat
  match searchPass g pool.freeList first (pool.freeHead.addr + max.toNat + 1) with
  | some r => some r
  | none => searchPass g pool.freeList pool.freeHead.addr first

/-- `assign_dynamic`: the lease for `addr6`, moved to the mapped list. -/
def assignDynamic (addr6 : In6) : Option Nat × Gcfg :=
  match g.dynamicPool with
  | none => (none, g)
  | some pool =>
    match pool.dormantList.find? fun d => addr6 = (g.hosts d).map6.addr with
    | some d => (some d, moveToMapped g d)
    | none => match searchFree g pool addr6 with
      | some (f, a) => match allocMapDynamic g pool addr6 (BitVec.ofNat 32 a) f with
        | none => (none, g)
        | some (d, g) => (some d, moveToMapped { g with mapWritePending := true } d)
      | none => match pool.dormantList.getLast? with
        | none => (none, g)
        | some d =>
          let g := g.setHost d { g.hosts d with map6 := { (g.hosts d).map6 with addr := addr6 } }
          (some d, moveToMapped { g with mapWritePending := true } d)

/-- The slow path of `map_ip6_to_ip4`. -/
def slow6 (addr6 : In6) (dynAlloc : Bool) : Except Error In4 × Gcfg := slow6With g assignDynamic addr6 dynAlloc

/-- `map_ip6_to_ip4`. -/
def mapIp6ToIp4 (addr6 : In6) (dynAlloc : Bool) : Except Error In4 × Gcfg :=
  match probe6 g addr6 with
  | some (addr4, g) => (.ok addr4, g)
  | none => slow6 g addr6 dynAlloc

/-! ### Maintenance -/

/-- First loop of `dynamic_maint`: a mapped lease that is not in the cache and was idle for the minimum lease time
becomes dormant. -/
def idleLeases (pool : DynamicPool) : Gcfg :=
  pool.mappedList.foldl (fun s d =>
    if (s.hosts d).cacheEntry = none ∧ (s.hosts d).lastUse + s.dynMinLease < s.now then moveToDormant s d else s) g

/-- The run in front of `f` in the circular free list. -/
def prevRun (f : FreeRef) : List FreeRef → Option FreeRef
  | [] => none
  | [_] => none
  | a :: b :: l => if b = f then some a else prevRun f (b :: l)

/-- Free a dormant lease: its run and its address join the run in front of it. -/
def expireLease (pool : DynamicPool) (d : Nat) : Gcfg :=
  match prevRun (FreeRef.host d) pool.freeList with
  | none => g
  | some f =>
    let v := g.freeAddr f
    let g := { g with dynamicPool := some { pool with
      freeList := pool.freeList.filter (· ≠ FreeRef.host d)
      dormantList := pool.dormantList.filter (· ≠ d) } }
    g.setFree f ⟨v.addr, (v.count + ((g.hosts d).free.count + 1)) % 2 ^ 32⟩

/-- Second loop of `dynamic_maint`: dormant leases idle for the maximum lease time expire, longest idle first; at
most all of them. -/
def expireLeases : Nat → Gcfg → Gcfg
  | 0, g => g
  | fuel + 1, g =>
    match g.dynamicPool with
    | none => g
    | some pool => match pool.dormantList.getLast? with
      | none => g
      | some d =>
        if g.now ≤ (g.hosts d).lastUse + g.dynMaxLease then g
        else expireLeases fuel (expireLease g pool d)

/-- `struct dynamic_snapshot`. -/
structure DynamicSnapshot where
  addr4 : In4
  addr6 : In6
  lastUse : Int
deriving Repr, DecidableEq

/-- The row of one lease; an active cache entry knows the later time of use. -/
def snapshotRow (d : Nat) : DynamicSnapshot :=
  let h := g.hosts d
  ⟨h.map4.addr, h.map6.addr, match h.cacheEntry with | some c => (g.entries c).lastUse | none => h.lastUse⟩

/-- The condition under which `dynamic_maint` writes the map file. -/
def wantsWrite (shutdown : Bool) : Bool :=
  g.dataDir ≠ [] ∧ (shutdown ∨ g.mapWritePending ∨ g.lastMapWrite + g.maxCommitDelay < g.now ∨ g.now < g.lastMapWrite)

/-- `dynamic_maint` up to the release of the map mutex: the new state, and the rows and the observed time of the
write it will attempt. -/
def dynamicMaint (shutdown : Bool) : Gcfg × Option (List DynamicSnapshot × Int) :=
  match g.dynamicPool with
  | none => (g, none)
  | some pool =>
    let g := idleLeases g pool
    let g := expireLeases (pool.mappedList.length + pool.dormantList.length) g
    match g.dynamicPool with
    | none => (g, none)
    | some pool =>
      if wantsWrite g shutdown then
        if g.oom then ({ g with mapWritePending := true }, none)
        else
          let rows := (pool.mappedList ++ pool.dormantList).map (snapshotRow g)
          ({ g with mapWritePending := false }, some (rows, g.now))
      else (g, none)

/-- The end of `dynamic_maint`, after the write to disk. -/
def dynamicMaintDone (observedTime : Int) (failed : Bool) : Gcfg :=
  if failed then { g with mapWritePending := true } else { g with lastMapWrite := observedTime }

end Tayga
