import Tayga.Assignment

/-!
# Lookups and the invariant

`map_ip4_to_ip6` always keeps the invariant.  `map_ip6_to_ip4` keeps it unless it brings a dormant lease back whose
IPv4 address another entry, or a cached pair, answers for already (`RevivesShadowed`).
-/

namespace Tayga

variable {g : Gcfg} {a : In4} {x : In6}

/-! ### The slow path of `map_ip6_to_ip4` -/

/-- Without an assignment the slow path publishes what `resolve6` finds. -/
theorem slow6_of_find {dyn : Bool} (h : findMap6 g x ≠ none ∨ dyn = false) : slow6 g x dyn =
    match resolve6 g x with
    | .error e => (.error e, g)
    | .ok f => (.ok f.addr, publish g f.addr x f.lease f.cachePair) := by
  unfold slow6 slow6With resolve6
  cases hf : findMap6 g x with
  | none =>
    rcases h with h | h
    · exact absurd hf h
    · subst h
      rfl
  | some m => rfl

theorem slow6_false_fst : (slow6 g x false).1 = (resolve6 g x).map Found.addr := by
  rw [slow6_of_find (Or.inr rfl)]
  cases resolve6 g x <;> rfl

/-- The slow path for an address without an entry: what `assign_dynamic` assigns is published. -/
theorem slow6_of_assign (hx : findMap6 g x = none) {d : Nat} {g' : Gcfg} (ha : assignDynamic g x = (some d, g')) :
    slow6 g x true = (.ok (g'.v4 d), publish g' (g'.v4 d) x (some d) true) := by
  unfold slow6 slow6With
  rw [hx]
  simp only [if_true, ha]
  rfl

theorem slow6_of_no_assign (hx : findMap6 g x = none) (ha : assignDynamic g x = (none, g)) :
    slow6 g x true = (.error .reject, g) := by
  unfold slow6 slow6With
  rw [hx]
  simp only [if_true, ha]
  rfl

/-! ### Pairs that may be cached -/

/-- A pair that the IPv6 slow path may cache is what the IPv4 slow path finds. -/
private theorem Found6.found4_of_pair (hm : MapsInv g) (hl : LeasesValid g) {l : Option Nat}
    (h : Found6 g x ⟨a, l, true⟩) : canonical6 g x = x ∧ Found4 g a ⟨x, l, true⟩ := by
  have key : canonical6 g x = x ∧ validateIp6Addr x = none := by
    generalize hf : (⟨a, l, true⟩ : Found In4) = f at h
    cases h with
    | @static i hf6 ht hb =>
      obtain ⟨hmem, hc⟩ := hm.find6.1 hf6
      have hok := hm.static_ok6 hmem
      have hcp : (g.statics i).cachePair = true := (congrArg Found.cachePair hf).symm
      refine ⟨?_, ?_⟩
      · rw [canonical6, hf6]
        simp only [ht, if_true]
        exact canonical_of_cachePair hcp x
      · have hlen : (g.statics i).map6.prefixLen + (32 - (g.statics i).map4.prefixLen) = 128 := by
          simpa [MapStatic.cachePair] using hcp
        rw [validateIp6Addr_of_inNet (hok.fits.wf6.covers_iff.1 hc) (by omega)]
        exact hm.valid6 i hmem (by omega)
    | @rfc6052 i b hf6 ht ha hs hr =>
      obtain ⟨hmem, hc⟩ := hm.find6.1 hf6
      have hok := hm.static_ok6 hmem
      have hlen := prefixLens_ge (hok.rfc4 ht).2
      refine ⟨?_, ?_⟩
      · rw [canonical6, hf6]
        simp only [ht, reduceCtorEq, if_false]
      · rw [validateIp6Addr_of_inNet (hok.fits.wf6.covers_iff.1 hc) hlen]
        exact hm.valid6 i hmem (by omega)
    | @host d hf6 =>
      obtain ⟨hmem, hc⟩ := hm.find6.1 hf6
      have hd := hm.host6 d hmem
      have hok := hm.host_ok d (Or.inl hd)
      have hx : x = g.v6 d := ((hm.list6.wf _ hmem).covers_host (by rw [Gcfg.map6, hok.map6])).1 hc
      refine ⟨by rw [canonical6, hf6], ?_⟩
      rw [hx]
      exact hl d (Or.inl hd)
  have := h.found4 hm (by rw [key.1]; exact key.2)
  rw [key.1] at this
  exact ⟨key.1, this⟩

/-! ### `map_ip6_to_ip4` keeps the invariant -/

theorem probe6_eq_none : probe6 g x = none ↔ g.cacheSize = 0 ∨ cached6 g x = none := by
  unfold probe6
  split <;> simp_all

theorem probe4_eq_some {g' : Gcfg} : probe4 g a = some (x, g') ↔
    g.cacheSize ≠ 0 ∧ ∃ c, cached4 g a = some c ∧ (g.entries c).addr6 = x ∧ touch g c = g' := by
  unfold probe4
  split <;> simp_all

theorem probe6_eq_some {g' : Gcfg} : probe6 g x = some (a, g') ↔
    g.cacheSize ≠ 0 ∧ ∃ c, cached6 g x = some c ∧ (g.entries c).addr4 = a ∧ touch g c = g' := by
  unfold probe6
  split <;> simp_all

/-- The lookup brings a dormant lease back into use, and the lease is shadowed. -/
def RevivesShadowed (g : Gcfg) (x : In6) (dyn : Bool) : Prop :=
  probe6 g x = none ∧ findMap6 g x = none ∧ dyn = true ∧ ∃ d, reactivated g x = some d ∧ Shadowed g d

theorem Inv.slow6_of_find (h : Inv g) {dyn : Bool} (hx : findMap6 g x ≠ none ∨ dyn = false) :
    Inv (slow6 g x dyn).2 := by
  rw [Tayga.slow6_of_find hx]
  cases hr : resolve6 g x with
  | error e => exact h
  | ok f =>
    refine h.publish fun hcp => ?_
    have h6 := resolve6_eq_ok.1 hr
    obtain ⟨b, l, cp⟩ := f
    simp only at hcp
    subst hcp
    exact resolve4_eq_ok.2 (h6.found4_of_pair h.maps h.valid).2

/-- The lease that an assignment moves to the mapped list answers for its address from then on. -/
theorem Activating.resolve4 {d : Nat} {g' : Gcfg} (ha : Activating g x d g') (hl : Linkable g' d) :
    resolve4 (moveToMapped g' d) ((moveToMapped g' d).v4 d) = .ok ⟨x, some d, true⟩ := by
  rw [moveToMapped_eq (hl.not_same ha.inv.base) (hl.no_clash ha.inv.base)]
  have hf : findMap4 (linked g' d) ((linked g' d).v4 d) = some (.host d) := hl.findMap4_self ha.inv.base
  unfold Tayga.resolve4
  rw [hf, ← ha.addr6]
  rfl

theorem Inv.slow6 (h : Inv g) {dyn : Bool} (hv : dyn = true → validateIp6Addr x = none)
    (hb : findMap6 g x = none → dyn = true → ∀ d, reactivated g x = some d → ¬ Shadowed g d) :
    Inv (slow6 g x dyn).2 := by
  by_cases hx : findMap6 g x = none
  · cases dyn with
    | false => exact h.slow6_of_find (Or.inr rfl)
    | true =>
      rcases assignDynamic_cases h (hv rfl) hx with ⟨e, -⟩ | ⟨d, g', e, ha⟩
      · rw [slow6_of_no_assign hx e]
        exact h
      · have hl : Linkable g' d := by
          refine ⟨ha.idle h.maps.toTablesInv hx, fun hs => ?_⟩
          obtain ⟨hre, hs⟩ := ha.shadowed.1 hs
          exact hb hx rfl d hre hs
        rw [slow6_of_assign hx e]
        exact (hl.inv_moveToMapped ha.inv).publish fun _ => ha.resolve4 hl
  · exact h.slow6_of_find (Or.inl hx)

/-- The state the slow path leaves: at most an assignment is made, and at most one pair published after it. -/
theorem slow6_state (g : Gcfg) (x : In6) (dyn : Bool) : ∃ s, (s = g ∨ dyn = true ∧ s = (assignDynamic g x).2) ∧
    ((slow6 g x dyn).2 = s ∨ ∃ f : Found In4, (slow6 g x dyn).2 = publish s f.addr x f.lease f.cachePair) := by
  unfold slow6 slow6With
  cases findMap6 g x with
  | some m =>
    refine ⟨g, .inl rfl, ?_⟩
    dsimp only
    cases switch6 g x m with
    | error e => exact .inl rfl
    | ok f => exact .inr ⟨f, rfl⟩
  | none =>
    cases dyn with
    | false => exact ⟨g, .inl rfl, .inl rfl⟩
    | true =>
      refine ⟨(assignDynamic g x).2, .inr ⟨rfl, rfl⟩, ?_⟩
      rw [if_pos rfl]
      dsimp only
      cases (assignDynamic g x).1.map MapRef.host with
      | none => exact .inl rfl
      | some m =>
        dsimp only
        cases switch6 (assignDynamic g x).2 x m with
        | error e => exact .inl rfl
        | ok f => exact .inr ⟨f, rfl⟩

/-- The slow path keeps the base invariant, whatever it brings back into use. -/
theorem Base.slow6 (h : Base g) {dyn : Bool} (hv : dyn = true → validateIp6Addr x = none) :
    Base (slow6 g x dyn).2 := by
  obtain ⟨s, hs, hend⟩ := slow6_state g x dyn
  have hbase : Base s := by
    rcases hs with rfl | ⟨hdyn, rfl⟩
    · exact h
    · exact h.assignDynamic (hv hdyn)
  rcases hend with e | ⟨f, e⟩ <;> rw [e]
  · exact hbase
  · exact hbase.publish f.addr x f.lease f.cachePair

/-- `map_ip6_to_ip4` keeps the invariant unless it revives a shadowed lease. -/
theorem Inv.mapIp6ToIp4 (h : Inv g) {dyn : Bool} (hv : dyn = true → validateIp6Addr x = none)
    (hb : ¬ RevivesShadowed g x dyn) : Inv (mapIp6ToIp4 g x dyn).2 := by
  rcases mapIp6ToIp4_cases (g := g) x dyn with ⟨c, -, -, e⟩ | ⟨hmiss, e⟩ <;> rw [e]
  · exact h.touch c
  · exact h.slow6 hv fun hx hdyn d hre hs => hb ⟨probe6_eq_none.2 hmiss, hx, hdyn, d, hre, hs⟩

end Tayga
