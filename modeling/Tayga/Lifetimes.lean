import Tayga.LoadLaw

/-!
# The lifetime of a lease

The mapper together with the times at which packets last matched the leases.  A packet matches a lease in use when its
lookup is answered with the two addresses of the lease.  The time goes into the lease on the slow path, and into its
cache entry otherwise, from which it comes back when the entry is released (`Tracked`).
-/

namespace Tayga

variable {g g' : Gcfg} {libc : Libc}

/-! ### The system with the times -/

/-- The pair of addresses a cache probe answers with. -/
def Lookup.hit (g : Gcfg) : Lookup → Option (In4 × In6)
  | .four addr4 => (probe4 g addr4).map fun r => (addr4, r.1)
  | .six addr6 _ => (probe6 g addr6).map fun r => (r.1, addr6)

/-- The pair of addresses a slow path answers with. -/
def Lookup.found (g : Gcfg) : Lookup → Option (In4 × In6)
  | .four addr4 => (slow4 g addr4).1.toOption.map fun addr6 => (addr4, addr6)
  | .six addr6 dynAlloc => (slow6 g addr6 dynAlloc).1.toOption.map fun addr4 => (addr4, addr6)

/-- The mapper, and for each lease the time of the last packet that matched it. -/
structure Timed where
  sys : System
  seen : Nat → Option Int

/-- Note an answered packet: it matches the lease in use with these addresses. -/
def stamp (seen : Nat → Option Int) (g : Gcfg) (pair : In4 × In6) : Nat → Option Int := fun d =>
  if d ∈ g.mapped ∧ g.v4 d = pair.1 ∧ g.v6 d = pair.2 then some g.now else seen d

/-- The answer of an event, if it is a lookup that ends there. -/
def answer (s : System) : Event → Option (In4 × In6)
  | .look w l => if s.pending w = none ∧ l.Checked then l.hit s.map else none
  | .finish w => (s.pending w).bind (Lookup.found s.map)
  | _ => none

/-- What an event does; an answered lookup is noted in the state after it. -/
def timedStep (libc : Libc) (s : Timed) (e : Event) : Timed where
  sys := step libc s.sys e
  seen := match answer s.sys e with
    | some pair => stamp s.seen (step libc s.sys e).map pair
    | none => s.seen

/-- The system when the workers start. -/
def Timed.start (g : Gcfg) : Timed := ⟨.start g, fun _ => none⟩

/-- The dormant leases are in the order of their last use, the latest first. -/
def Sorted (g : Gcfg) : Prop := g.dormant.Pairwise fun d e => (g.hosts e).lastUse ≤ (g.hosts d).lastUse

/-! ### The time of a lease in use -/

/-- The time of the last packet of a lease is in the lease, or in the active entry with its addresses; an entry that
would hand its time over to the lease has its addresses. -/
structure Tracked (g : Gcfg) (seen : Option Int) (d : Nat) : Prop where
  unlinked : (g.hosts d).cacheEntry = none → ∀ t ∈ seen, t ≤ (g.hosts d).lastUse
  linked : ∀ c ∈ g.cacheActive, (g.entries c).addr4 = g.v4 d → (g.entries c).addr6 = g.v6 d →
    (g.hosts d).cacheEntry = some c ∧ ∀ t ∈ seen, t ≤ (g.entries c).lastUse
  flagged : ∀ c ∈ g.cacheActive, (g.hosts d).cacheEntry = some c → (g.entries c).repAgeout = true →
    (g.entries c).addr4 = g.v4 d → (g.entries c).addr6 = g.v6 d

/-- A dormant lease has no cache entry. -/
structure Resting (g : Gcfg) (seen : Option Int) (d : Nat) : Prop where
  unlinked : (g.hosts d).cacheEntry = none
  used : ∀ t ∈ seen, t ≤ (g.hosts d).lastUse

/-- The invariant: every lease in use is tracked and in one of the map lists, and every dormant one rests in its
order. -/
structure LifeInv (g : Gcfg) (seen : Nat → Option Int) : Prop where
  base : Base g
  listed : ∀ d ∈ g.mapped, .host d ∈ g.map4List ∨ .host d ∈ g.map6List
  mapped : ∀ d ∈ g.mapped, Tracked g (seen d) d
  dormant : ∀ d ∈ g.dormant, Resting g (seen d) d
  sorted : Sorted g

theorem Tracked.congr {seen : Option Int} {d : Nat} (h : Tracked g seen d) (h4 : g'.v4 d = g.v4 d)
    (h6 : g'.v6 d = g.v6 d) (hc : (g'.hosts d).cacheEntry = (g.hosts d).cacheEntry)
    (hu : (g'.hosts d).lastUse = (g.hosts d).lastUse) (he : g'.entries = g.entries)
    (ha : g'.cacheActive = g.cacheActive) : Tracked g' seen d := by
  constructor
  · rw [hc, hu]
    exact h.unlinked
  · rw [hc, he, ha, h4, h6]
    exact h.linked
  · rw [hc, he, ha, h4, h6]
    exact h.flagged

theorem Resting.congr {seen : Option Int} {d : Nat} (h : Resting g seen d)
    (hc : (g'.hosts d).cacheEntry = (g.hosts d).cacheEntry) (hu : (g'.hosts d).lastUse = (g.hosts d).lastUse) :
    Resting g' seen d := by
  constructor
  · rw [hc]
    exact h.unlinked
  · rw [hu]
    exact h.used

end Tayga
