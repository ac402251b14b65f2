import Tayga.LifetimeProofs

/-!
# The law of lease lifetimes

Every step keeps every lease tracked, whatever static maps come and go meanwhile (`TimedInv.step`), so every lease is
tracked in every state of every run (`TimedInv.run`).
-/

namespace Tayga

open FirstMatch

variable {g g' : Gcfg} {seen : Nat → Option Int} {d : Nat} {libc : Libc}

/-! ### Lookups -/

/-- A lease in use is found under one of its addresses. -/
private theorem LifeInv.find (h : LifeInv g seen) (hd : d ∈ g.mapped) :
    findMap4 g (g.v4 d) = some (.host d) ∨ findMap6 g (g.v6 d) = some (.host d) := by
  have hok := h.base.tables.host_ok d (Or.inl hd)
  refine (h.listed d hd).imp (fun h4 => ?_) fun h6 => ?_
  · exact h.base.tables.list4.find_host h4 (by rw [Gcfg.map4, hok.map4])
  · exact h.base.tables.find6.2 ⟨h6, (h.base.tables.list6.wf _ h6).covers_addr⟩

/-- What a static entry answers is not the pair of a lease in use. -/
private theorem LifeInv.found4_none (h : LifeInv g seen) {a : In4} {x : In6} {cp : Bool}
    (hr : resolve4 g a = .ok ⟨x, none, cp⟩) : ∀ d ∈ g.mapped, ¬ (g.v4 d = a ∧ g.v6 d = x) := by
  rintro d hd ⟨hva, hvx⟩
  have hm := h.base.tables
  have hfind := h.find hd
  have hv := h.base.valid d (Or.inl hd)
  rw [hva, hvx] at hfind
  rw [hvx] at hv
  -- the entry found for the IPv4 address answers for the IPv6 address too, or is the translator's own
  have key : ∀ i, findMap4 g a = some (.static i) → (g.statics i).map6.covers x = true →
      (IsOwn g i → x = g.localAddr6) → False := by
    intro i hf hcov hown
    rcases hfind with h4 | h6
    · rw [hf] at h4
      cases h4
    · rcases hm.pair46 i (hm.mem4 hf).1 with hi | hi
      · rw [hm.find6.2 ⟨hi, hcov⟩] at h6
        cases h6
      · rw [hown hi] at h6 hv
        obtain ⟨j, hj, -⟩ := hm.find6_own hv
        rw [hj] at h6
        cases h6
  cases resolve4_eq_ok.1 hr with
  | @static i hf ht hb =>
    have hfits := (hm.static_ok i (hm.mem4 hf).1).fits
    have hcov := covers_staticAddr6 hfits a
    refine key i hf hcov fun hown => ?_
    have hx := (hfits.wf6.covers_host (by rw [hown.map6])).1 hcov
    rw [hx, hown.map6]
  | @rfc6052 i _ hf ht hx =>
    have hok := hm.static_ok i (hm.mem4 hf).1
    obtain ⟨-, hlen⟩ := hok.rfc6 ht
    refine key i hf (hok.fits.wf6.covers_iff.2 (inNet_of_append hlen hok.fits.wf6.normal hx)) fun hown => ?_
    rw [hown.map4] at ht
    cases ht

private theorem LifeInv.found6_none (h : LifeInv g seen) {a : In4} {x : In6} {cp : Bool}
    (hr : resolve6 g x = .ok ⟨a, none, cp⟩) : ∀ d ∈ g.mapped, ¬ (g.v4 d = a ∧ g.v6 d = x) := by
  rintro d hd ⟨hva, hvx⟩
  have hm := h.base.tables
  have hfind := h.find hd
  rw [hva, hvx] at hfind
  have key : ∀ i, findMap6 g x = some (.static i) → findMap4 g a = some (.static i) → False := by
    intro i h6 h4
    rw [h4, h6] at hfind
    rcases hfind with hf | hf <;> cases hf
  cases resolve6_eq_ok.1 hr with
  | @static i hf ht hb =>
    by_cases h0 : 0 < (g.statics i).bits
    · exact key i hf (hb h0).2.2
    · -- an entry without host bits answers with its own address
      have hi := hm.pair64 i (hm.find6.1 hf).1
      have hfits := (hm.static_ok i hi).fits
      have hlen : (g.map4 (.static i)).prefixLen = 32 := by
        have hle := hfits.wf4.len_le
        simp only [MapStatic.bits] at h0
        simp only [Gcfg.map4]
        omega
      have ha := (hfits.wf4.covers_host hlen).1 (covers_staticAddr4 hfits x)
      refine key i hf ?_
      rw [ha]
      exact hm.list4.find_host hi hlen
  | rfc6052 hf ht ha hs hf4 => exact key _ hf hf4

/-- The state after a lookup that ended with `r`: an answer is noted. -/
def Noted (g : Gcfg) (seen : Nat → Option Int) : Option (In4 × In6) → Prop
  | some pair => LifeInv g (stamp seen g pair)
  | none => LifeInv g seen

/-- The slow path of `map_ip4_to_ip6` notes its packet. -/
theorem LifeInv.slow4 (h : LifeInv g seen) (a : In4) :
    Noted (slow4 g a).2 seen ((slow4 g a).1.toOption.map fun x => (a, x)) := by
  unfold Tayga.slow4
  cases hr : resolve4 g a with
  | error e => exact h
  | ok f =>
    obtain ⟨x, l, cp⟩ := f
    cases l with
    | none => exact h.publishNone (h.found4_none hr) cp
    | some d =>
      cases resolve4_eq_ok.1 hr with
      | host hf =>
        obtain ⟨hmem, hcov⟩ := h.base.tables.mem4 hf
        have hd := h.base.tables.host4 d hmem
        have ha : a = g.v4 d := by
          refine ((h.base.tables.list4.wf _ hmem).covers_host ?_).1 hcov
          rw [Gcfg.map4, (h.base.tables.host_ok d (Or.inl hd)).map4]
        subst ha
        exact (h.but d).publish hd

/-- The slow path of `map_ip6_to_ip4` notes its packet, and that of the lease it assigns. -/
theorem LifeInv.slow6 (h : LifeInv g seen) {x : In6} {dyn : Bool} (hv : dyn = true → validateIp6Addr x = none) :
    Noted (slow6 g x dyn).2 seen ((slow6 g x dyn).1.toOption.map fun a => (a, x)) := by
  by_cases hx : findMap6 g x ≠ none ∨ dyn = false
  · rw [slow6_of_find hx]
    cases hr : resolve6 g x with
    | error e => exact h
    | ok f =>
      obtain ⟨a, l, cp⟩ := f
      cases l with
      | none => exact h.publishNone (h.found6_none hr) cp
      | some d =>
        cases resolve6_eq_ok.1 hr with
        | host hf =>
          obtain ⟨hmem, hcov⟩ := h.base.tables.find6.1 hf
          have hd := h.base.tables.host6 d hmem
          have ha : x = g.v6 d := by
            refine ((h.base.tables.list6.wf _ hmem).covers_host ?_).1 hcov
            rw [Gcfg.map6, (h.base.tables.host_ok d (Or.inl hd)).map6]
          subst ha
          exact (h.but d).publish hd
  · rw [not_or, not_not, Bool.not_eq_false] at hx
    obtain ⟨hx, rfl⟩ := hx
    rcases assignDynamic_rise h.base x with ⟨e, -⟩ | ⟨d, g₁, e, hr⟩
    · rw [slow6_of_no_assign hx e]
      exact h
    · obtain ⟨hup, hsame, h6⟩ := hr.upTo h (hv rfl)
      have hidle : Idle g₁ d := ⟨hup.rising, by rw [h6, hsame.findMap6 h.base.tables, hx]⟩
      -- the IPv6 list takes the lease
      have hl : MapRef.host d ∈ (moveToMapped g₁ d).map6List := by
        rcases moveToMapped_cases (hidle.no_clash hup.base) with e | e <;> rw [e] <;>
          exact Linkable.mem6.2 (Or.inl rfl)
      obtain ⟨hbut, hd⟩ := hup.moveToMapped (Or.inr hl)
      have h6' : (moveToMapped g₁ d).v6 d = x := by
        rw [← h6]
        simp only [Gcfg.v6, hosts_moveToMapped]
      rw [slow6_of_assign hx e]
      have hp := hbut.publish hd
      rw [h6'] at hp
      exact hp

theorem LifeInv.slow (h : LifeInv g seen) {l : Lookup} (hl : l.Checked) : Noted (l.slow g) seen (l.found g) := by
  cases l with
  | four a => exact h.slow4 a
  | six x dyn => exact h.slow6 hl

/-- A cache hit notes its packet. -/
theorem LifeInv.probe (h : LifeInv g seen) {l : Lookup} (hp : l.probe g = some g') : Noted g' seen (l.hit g) := by
  cases l with
  | four a =>
    obtain ⟨⟨x, g''⟩, hr, rfl⟩ := Option.map_eq_some_iff.1 hp
    obtain ⟨-, c, hc, rfl, rfl⟩ := probe4_eq_some.1 hr
    obtain ⟨hca, rfl⟩ := h.base.cache.cached4_some hc
    rw [Lookup.hit, hr]
    exact h.touch hca
  | six x dyn =>
    obtain ⟨⟨a, g''⟩, hr, rfl⟩ := Option.map_eq_some_iff.1 hp
    obtain ⟨-, c, hc, rfl, rfl⟩ := probe6_eq_some.1 hr
    obtain ⟨hca, rfl⟩ := h.base.cache.cached6_some hc
    rw [Lookup.hit, hr]
    exact h.touch hca

/-! ### Maintenance and reloads -/

/-- The map lists, the clock and the bookkeeping may change where the leases stay in a list. -/
theorem LifeInv.bookkeeping (h : LifeInv g seen) (hb : Base g') (hp : g'.dynamicPool = g.dynamicPool)
    (hh : g'.hosts = g.hosts) (he : g'.entries = g.entries) (ha : g'.cacheActive = g.cacheActive)
    (h4 : ∀ d, .host d ∈ g.map4List → .host d ∈ g'.map4List) (h6 : ∀ d, .host d ∈ g.map6List → .host d ∈ g'.map6List) :
    LifeInv g' seen := by
  have hm : g'.mapped = g.mapped := by simp only [Gcfg.mapped, hp]
  have hd : g'.dormant = g.dormant := by simp only [Gcfg.dormant, hp]
  refine ⟨hb, fun d hdm => ?_, fun d hdm => ?_, fun d hdm => ?_, ?_⟩
  · rw [hm] at hdm
    exact (h.listed d hdm).imp (h4 d) (h6 d)
  · rw [hm] at hdm
    refine (h.mapped d hdm).congr ?_ ?_ (by rw [hh]) (by rw [hh]) he ha
    · simp only [Gcfg.v4, hh]
    · simp only [Gcfg.v6, hh]
  · rw [hd] at hdm
    exact (h.dormant d hdm).congr (by rw [hh]) (by rw [hh])
  · unfold Sorted
    rw [hd, hh]
    exact h.sorted

theorem LifeInv.addrmapMaint (h : LifeInv g seen) : LifeInv (addrmapMaint g) seen :=
  addrmapMaint_induct (P := fun s => LifeInv s seen) (fun _ _ h hc => h.releaseEntry hc) h.base.cache.nodup_active h

theorem LifeInv.dynamicMaint (h : LifeInv g seen) (shutdown : Bool) : LifeInv (dynamicMaint g shutdown).1 seen := by
  refine dynamicMaint_induct (P := fun s => LifeInv s seen) (fun _ _ h hd hc _ => h.moveToDormant hd hc)
    (fun _ _ _ h hp hd _ => h.expireLease hp hd) (fun s b h => ?_) (fun p hp => (h.base.runs p hp).nodup_mapped) h
        shutdown
  exact h.bookkeeping (h.base.writePending b) rfl rfl rfl rfl (fun _ h => h) fun _ h => h

theorem LifeInv.addrmapReload (h : LifeInv g seen) (file : Option MapFileRead) :
    LifeInv (addrmapReload g libc file).2 seen := by
  rcases addrmapReload_eq g libc file with ⟨f, l, -, hl, -, -, e⟩ | ⟨-, e⟩ | e <;> rw [e]
  · refine publishMaps_induct (P := fun s => LifeInv s seen) (fun _ h => h.base) (fun s hs => ?_) (fun s m hs hm => ?_)
      (fun _ _ h hc => h.releaseEntry hc) (staged_parseMapFile hl) h
    · have hb := hs.base.dropFileMaps
      have ht := hs.base.tables
      have e := dropFileMaps_eq ht
      refine hs.bookkeeping hb ?_ ?_ ?_ ?_ (fun d hd => ?_) fun d hd => ?_
      · rw [e]
        rfl
      · rw [e]
        rfl
      · rw [e]
        rfl
      · rw [e]
        rfl
      · exact (mem4_dropFileMaps ht).2 ⟨hd, rfl⟩
      · exact (mem6_dropFileMaps ht).2 ⟨hd, rfl⟩
    · exact hs.bookkeeping (hs.base.withStatic hm) rfl rfl rfl rfl (fun d hd => mem4_withStatic.2 (Or.inr hd))
        fun d hd => mem6_withStatic.2 (Or.inr hd)
  · exact h
  · exact h

/-! ### Steps -/

/-- The invariant of the system with the times. -/
structure TimedInv (s : Timed) : Prop where
  life : LifeInv s.sys.map s.seen
  checked : ∀ w l, s.sys.pending w = some l → l.Checked

/-- Every step keeps every lease tracked. -/
theorem TimedInv.step {s : Timed} (h : TimedInv s) (e : Event) : TimedInv (timedStep libc s e) := by
  have hpend : ∀ w l, (timedStep libc s e).sys.pending w = some l → l.Checked := fun w l hw =>
    (step_pending hw).elim (h.checked w l) And.right
  refine ⟨?_, hpend⟩
  have hl := h.life
  have hnoted : Noted (Tayga.step libc s.sys e).map s.seen (answer s.sys e) := by
    cases e with
    | look w l =>
      simp only [Tayga.step, answer]
      split
      · cases hp : l.probe s.sys.map with
        | some g => exact hl.probe hp
        | none =>
          have hn : l.hit s.sys.map = none := by
            cases l <;> simpa [Lookup.probe, Lookup.hit] using hp
          rw [hn]
          exact hl
      · exact hl
    | finish w =>
      simp only [Tayga.step, answer]
      cases hp : s.sys.pending w with
      | none => exact hl
      | some l => exact hl.slow (h.checked w l hp)
    | cacheMaint =>
      simp only [Tayga.step]
      split
      · exact hl
      · exact hl.addrmapMaint
    | dynamicMaint shutdown =>
      simp only [Tayga.step]
      split
      · exact hl
      · exact hl.dynamicMaint shutdown
    | written failed =>
      simp only [Tayga.step]
      split
      · refine hl.bookkeeping (hl.base.dynamicMaintDone _ failed) ?_ ?_ ?_ ?_ ?_ ?_ <;>
          cases failed <;> first | rfl | exact fun _ h => h
      · exact hl
    | reload file =>
      simp only [Tayga.step]
      split
      · exact hl
      · exact hl.addrmapReload file
    | tick t =>
      simp only [Tayga.step]
      split
      · exact hl.bookkeeping (hl.base.tick t) rfl rfl rfl rfl (fun _ h => h) fun _ h => h
      · exact hl
    | alloc fails => exact hl.bookkeeping (hl.base.alloc fails) rfl rfl rfl rfl (fun _ h => h) fun _ h => h
  show LifeInv (Tayga.step libc s.sys e).map (match answer s.sys e with
    | some pair => stamp s.seen (Tayga.step libc s.sys e).map pair
    | none => s.seen)
  generalize answer s.sys e = r at hnoted ⊢
  cases r with
  | none => exact hnoted
  | some pair => exact hnoted

theorem TimedInv.run {s : Timed} (h : TimedInv s) (es : List Event) : TimedInv (Run.run (timedStep libc) s es) := by
  induction es generalizing s with
  | nil => exact h
  | cons e es ih => exact ih (h.step e)

end Tayga
