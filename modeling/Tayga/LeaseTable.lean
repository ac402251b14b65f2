import Tayga.RoundTrip6

/-!
# The lease table

What the lists say about the leases of the pool: a lease in use answers for its two addresses and for nothing else,
and no two leases share an address.  It follows from the invariant, so it holds in every state reached from a startup
by a run that revives no shadowed lease (`lease_table_run`).
-/

namespace Tayga

variable {g : Gcfg}

/-- A lease of the pool, in use or idle. -/
def Gcfg.Lease (g : Gcfg) (d : Nat) : Prop := d ∈ g.mapped ∨ d ∈ g.dormant

/-- The leases and the map lists agree. -/
structure LeaseTable (g : Gcfg) : Prop where
  listed4 : ∀ d ∈ g.mapped, .host d ∈ g.map4List
  listed6 : ∀ d ∈ g.mapped, .host d ∈ g.map6List
  find4 : ∀ d ∈ g.mapped, findMap4 g (g.v4 d) = some (.host d)
  find6 : ∀ d ∈ g.mapped, findMap6 g (g.v6 d) = some (.host d)
  inj4 : ∀ d e, g.Lease d → g.Lease e → g.v4 d = g.v4 e → d = e
  inj6 : ∀ d e, g.Lease d → g.Lease e → g.v6 d = g.v6 e → d = e
  only : ∀ d ∈ g.mapped, ∀ y dyn, (Lookup.six y dyn).Checked → (mapIp6ToIp4 g y dyn).1 = .ok (g.v4 d) → y = g.v6 d

private theorem Gcfg.Lease.of_pool {p : DynamicPool} (hp : g.dynamicPool = some p) {d : Nat} (h : g.Lease d) :
    d ∈ p.mappedList ∨ d ∈ p.dormantList := by
  rwa [Gcfg.Lease, mapped_of_pool hp, dormant_of_pool hp] at h

theorem Inv.v4_inj (h : Inv g) {d e : Nat} (hd : g.Lease d) (he : g.Lease e) (hv : g.v4 d = g.v4 e) : d = e := by
  obtain ⟨p, hp⟩ := exists_pool hd
  exact (h.pool p hp).v4_inj (hd.of_pool hp) (he.of_pool hp) hv

theorem Inv.v6_inj (h : Inv g) {d e : Nat} (hd : g.Lease d) (he : g.Lease e) (hv : g.v6 d = g.v6 e) : d = e := by
  obtain ⟨p, hp⟩ := exists_pool hd
  exact (h.pool p hp).v6_inj d e (hd.of_pool hp) (he.of_pool hp) hv

/-- What the IPv6 slow path finds for the IPv4 address of a lease in use is found for the lease's IPv6 address. -/
private theorem Found6.of_lease (hm : MapsInv g) {d : Nat} (hd : d ∈ g.mapped) {y : In6} {l : Option Nat} {cp : Bool}
    (h : Found6 g y ⟨g.v4 d, l, cp⟩) : y = g.v6 d := by
  have hf := hm.find4_lease hd
  generalize hr : (⟨g.v4 d, l, cp⟩ : Found In4) = f at h
  cases h with
  | @static i hf6 ht hb =>
    have ha : g.v4 d = staticAddr4 (g.statics i) y := congrArg Found.addr hr
    obtain ⟨h6, -⟩ := hm.find6.1 hf6
    have h4 := hm.pair64 i h6
    have hok := hm.static_ok i h4
    have hf4 : findMap4 g (g.v4 d) = some (.static i) := by
      by_cases h0 : 0 < (g.statics i).bits
      · rw [ha]
        exact (hb h0).2.2
      · rw [ha, staticAddr4_of_host hok.fits (by omega)]
        have hl : (g.map4 (.static i)).prefixLen = 32 := by
          have := hok.fits.bits_eq
          rw [Gcfg.map4]
          omega
        exact hm.list4.find_host h4 hl
    rw [hf] at hf4
    cases hf4
  | rfc6052 hf6 ht ha hs hf4 =>
    cases hr
    rw [hf] at hf4
    cases hf4
  | @host e hf6 =>
    have ha : g.v4 d = g.v4 e := congrArg Found.addr hr
    obtain ⟨hmem, hc⟩ := hm.find6.1 hf6
    have he := hm.host6 e hmem
    obtain rfl := hm.v4_inj hd he ha
    exact ((hm.list6.wf _ hmem).covers_host (by rw [Gcfg.map6, (hm.host_ok d (Or.inl hd)).map6])).1 hc

private theorem hosts_tryInsertMap4 (m : MapRef) : (tryInsertMap4 g m).hosts = g.hosts := by
  unfold tryInsertMap4 insertMap4
  cases g.map4List.find? fun s => (g.map4 s).same (g.map4 m) <;> rfl

private theorem hosts_tryInsertMap6 (m : MapRef) : (tryInsertMap6 g m).hosts = g.hosts := by
  unfold tryInsertMap6 insertMap6
  cases g.map6List.find? fun s => (g.map6 s).clash (g.map6 m) <;> rfl

theorem hosts_moveToMapped (d : Nat) : (moveToMapped g d).hosts = g.hosts :=
  (hosts_tryInsertMap6 _).trans (hosts_tryInsertMap4 _)

/-- A lease in use answers only for its own IPv6 address. -/
private theorem lease_only (h : Inv g) {d : Nat} (hd : d ∈ g.mapped) {y : In6} {dyn : Bool}
    (hv : (Lookup.six y dyn).Checked) (hr : (mapIp6ToIp4 g y dyn).1 = .ok (g.v4 d)) : y = g.v6 d := by
  rcases mapIp6ToIp4_cases (g := g) y dyn with ⟨c, -, hc, e⟩ | ⟨-, e⟩ <;> rw [e] at hr
  · -- a hit: the cached pair is what the IPv4 slow path finds, which is the lease
    obtain ⟨hca, h6⟩ := h.cache.cached6_some hc
    have h4 : (g.entries c).addr4 = g.v4 d := Except.ok.inj hr
    obtain ⟨l, hl⟩ := h.coherent _ _ ⟨c, hca, h4, h6⟩
    rw [resolve4, h.maps.find4_lease hd] at hl
    exact (congrArg Found.addr (Except.ok.inj hl)).symm
  · by_cases hx : findMap6 g y ≠ none ∨ dyn = false
    · obtain ⟨l, cp, h6⟩ := resolve6_of_fst hx hr
      exact (resolve6_eq_ok.1 h6).of_lease h.maps hd
    · -- an assignment: the lease that is moved was idle, so it has another IPv4 address
      simp only [not_or, not_not, Bool.not_eq_false] at hx
      obtain ⟨hx, rfl⟩ := hx
      rcases assignDynamic_cases h (hv rfl) hx with ⟨ea, -⟩ | ⟨e, g', ea, hact⟩
      · rw [slow6_of_no_assign hx ea] at hr
        cases hr
      · rw [slow6_of_assign hx ea] at hr
        have hd' : d ∈ g'.mapped := by rw [hact.same.mapped]; exact hd
        have h4 : g'.v4 d = g'.v4 e := by
          have hv4 : g'.v4 d = g.v4 d := by unfold Gcfg.v4; rw [hact.same.host4 d hd]
          rw [hv4, ← Except.ok.inj hr]
          unfold Gcfg.v4
          rw [hosts_moveToMapped]
        obtain rfl := hact.inv.v4_inj (Or.inl hd') (Or.inr hact.dormant) h4
        exact absurd hact.dormant (hact.inv.not_dormant hd')

private theorem Inv.leaseTable (h : Inv g) : LeaseTable g where
  listed4 _ hd := h.maps.listed4 _ hd
  listed6 _ hd := h.maps.listed6 _ hd
  find4 _ hd := h.maps.find4_lease hd
  find6 _ hd := h.maps.find6_lease hd
  inj4 _ _ := h.v4_inj
  inj6 _ _ := h.v6_inj
  only _ hd _ _ hv := lease_only h hd hv

/-- **The lease table holds in every state reached** from a startup by a run that revives no shadowed lease. -/
theorem lease_table_run {libc : Libc} {e : Endian} {now : Int} {content : List Char} {sd : Option (List Char)}
    {rand : Nat → BitVec 32} (hs : startup libc e now content sd rand = .ok g) {es : List Event}
    (ha : Run.Along (step libc) RevivesNothing (.start g) es) :
    LeaseTable (Run.run (step libc) (.start g) es).map :=
  ((startup_inv hs).start.run ha).inv.leaseTable

theorem lease_table_run_sample : ∃ g, sampleStart = .ok g ∧
    LeaseTable (Run.run (step sampleLibc) (.start g) (sampleRun "map 198.18.0.5 2001:db8::99")).map := by
  obtain ⟨g, hs, ha⟩ := start_any (r := sampleStart) (p := fun g =>
    Run.Along (step sampleLibc) RevivesNothing (.start g) (sampleRun "map 198.18.0.5 2001:db8::99"))
    (by decide +kernel)
  exact ⟨g, hs, lease_table_run hs ha⟩

/-- The reload gives the IPv4 address of the idle lease to another host; the lease comes back into use without its
IPv4 half in the list. -/
theorem lease_table_run_shadowed : ∃ g, sampleStart = .ok g ∧
    ¬ LeaseTable (Run.run (step sampleLibc) (.start g) (sampleRun "map 198.18.0.4 2001:db8::99")).map := by
  obtain ⟨g, hs, hm, hf⟩ := start_any (r := sampleStart) (p := fun g =>
    let s := (Run.run (step sampleLibc) (.start g) (sampleRun "map 198.18.0.4 2001:db8::99")).map
    0 ∈ s.mapped ∧ findMap4 s (s.v4 0) ≠ some (.host 0)) (by decide +kernel)
  exact ⟨g, hs, fun ht => hf (ht.find4 0 hm)⟩

end Tayga
