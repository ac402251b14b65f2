import Tayga.Cutting

/-!
# Assigning a lease

`assign_dynamic` finds a dormant lease or cuts a new one (`Rise`) and moves it to the mapped list (`assignDynamic_rise`,
`assignDynamic_cases`).
-/

namespace Tayga

open FreeRuns FirstMatch

variable {g : Gcfg} {p : DynamicPool}

/-! ### Assignment -/

private theorem map4_withDormant (d : Nat) : (withDormant g d).map4 = g.map4 := by
  funext r
  cases r with
  | static i => rfl
  | pool =>
    simp only [Gcfg.map4, withDormant]
    cases g.dynamicPool <;> rfl
  | host e => rfl

private theorem map6_withDormant (d : Nat) : (withDormant g d).map6 = g.map6 := by
  funext r
  cases r <;> rfl

private theorem tryInsertMap4_withDormant (d : Nat) (m : MapRef) :
    tryInsertMap4 (withDormant g d) m = withDormant (tryInsertMap4 g m) d := by
  unfold tryInsertMap4 insertMap4
  have e : (withDormant g d).map4List = g.map4List := rfl
  rw [map4_withDormant, e]
  cases g.map4List.find? fun s => (g.map4 s).same (g.map4 m) <;> rfl

private theorem tryInsertMap6_withDormant (d : Nat) (m : MapRef) :
    tryInsertMap6 (withDormant g d) m = withDormant (tryInsertMap6 g m) d := by
  unfold tryInsertMap6 insertMap6
  have e : (withDormant g d).map6List = g.map6List := rfl
  rw [map6_withDormant, e]
  cases g.map6List.find? fun s => (g.map6 s).clash (g.map6 m) <;> rfl

/-- Moving a lease to the mapped list takes it off the dormant list if it is there. -/
private theorem moveToMapped_withDormant (d : Nat) : moveToMapped (withDormant g d) d = moveToMapped g d := by
  unfold moveToMapped
  rw [tryInsertMap4_withDormant]
  simp only []
  rw [tryInsertMap6_withDormant]
  simp only [withDormant, Option.map_map]
  congr 1
  refine Option.map_congr fun p _ => ?_
  simp

theorem Linkable.inv_moveToMapped {d : Nat} (hl : Linkable g d) (h : Inv g) : Inv (moveToMapped g d) := by
  rw [moveToMapped_eq (hl.not_same h.base) (hl.no_clash h.base)]
  exact hl.inv h

/-- The dormant lease that `assign_dynamic` would bring back into use for an address: the address's own, or the
longest idle one when no address is free. -/
def reactivated (g : Gcfg) (x : In6) : Option Nat :=
  match g.dynamicPool with
  | none => none
  | some p =>
    match p.dormantList.find? fun d => x = (g.hosts d).map6.addr with
    | some d => some d
    | none => match searchFree g p x with
      | some _ => none
      | none => p.dormantList.getLast?

/-- `assign_dynamic` is about to move lease `d`, which stands for the address, from the dormant to the mapped list in
state `g'`. -/
structure Activating (g : Gcfg) (x : In6) (d : Nat) (g' : Gcfg) : Prop where
  inv : Inv g'
  same : SameMapped g g'
  dormant : d ∈ g'.dormant
  addr6 : g'.v6 d = x
  addr4 : reactivated g x = some d → g'.v4 d = g.v4 d
  listed : reactivated g x = some d → d ∈ g.dormant
  only : ∀ e, reactivated g x = some e → e = d
  shadowed : Shadowed g' d ↔ reactivated g x = some d ∧ Shadowed g d

theorem Shadowed.congr {g' : Gcfg} (hs : SameMapped g g') (hm : TablesInv g) {d : Nat} (hv : g'.v4 d = g.v4 d) :
    Shadowed g' d ↔ Shadowed g d := by
  unfold Shadowed
  rw [hs.map4List, hs.cacheActive, hs.entries, hv]
  refine or_congr ⟨?_, ?_⟩ Iff.rfl
  · rintro ⟨m, hmm, h⟩
    rw [hs.map4 hm m hmm] at h
    exact ⟨m, hmm, h⟩
  · rintro ⟨m, hmm, h⟩
    rw [← hs.map4 hm m hmm] at h
    exact ⟨m, hmm, h⟩

theorem SameMapped.writePending {g' : Gcfg} (h : SameMapped g g') (b : Bool) :
    SameMapped g { g' with mapWritePending := b } :=
  ⟨h.endian, h.localAddr4, h.localAddr6, h.wkpfStrict, h.statics, h.nStatics, h.map4List, h.map6List, h.pool,
    h.isSome, h.mapped, h.host4, h.host6, h.cacheEntry, h.cacheSize, h.hashBits, h.rand, h.entries, h.cachePool,
        h.cacheActive,
    h.hashTable4, h.hashTable6⟩

/-- The lease to be moved is idle, and its IPv6 address is not covered if the address was not. -/
theorem Activating.idle {x : In6} {d : Nat} {g' : Gcfg} (ha : Activating g x d g') (hm : TablesInv g)
    (hx : findMap6 g x = none) : Idle g' d where
  dormant := ha.dormant
  uncovered := by rw [ha.addr6, ha.same.findMap6 hm, hx]

/-- The lease that `assign_dynamic` is about to move to the mapped list: the host's own dormant one, a new one, or the
oldest dormant one for the new host. -/
inductive Rise (g : Gcfg) (x : In6) : Nat → Gcfg → Prop where
  | same {d : Nat} (hd : d ∈ g.dormant) (hx : g.v6 d = x) (hre : reactivated g x = some d) : Rise g x d g
  | fresh {p : DynamicPool} {f : FreeRef} {a : Nat} (hp : g.dynamicPool = some p) (hf : FreeIn g p f a)
      (hnone : ∀ e ∈ g.dormant, g.v6 e ≠ x) (hre : reactivated g x = none) :
      Rise g x g.nHosts { fresh g p x a f with mapWritePending := true }
  | reuse {d : Nat} (hl : g.dormant.getLast? = some d) (hnone : ∀ e ∈ g.dormant, g.v6 e ≠ x)
      (hre : reactivated g x = some d) : Rise g x d { readdress g d x with mapWritePending := true }

/-- `assign_dynamic` assigns nothing and changes nothing, or a lease rises. -/
theorem assignDynamic_rise (h : Base g) (x : In6) : (assignDynamic g x = (none, g) ∧ reactivated g x = none) ∨
    ∃ d g₁, assignDynamic g x = (some d, moveToMapped g₁ d) ∧ Rise g x d g₁ := by
  unfold assignDynamic
  cases hp : g.dynamicPool with
  | none => exact .inl ⟨rfl, by rw [reactivated, hp]⟩
  | some p =>
    have hre : reactivated g x = match p.dormantList.find? fun d => x = (g.hosts d).map6.addr with
        | some d => some d
        | none => match searchFree g p x with
          | some _ => none
          | none => p.dormantList.getLast? := by
      unfold reactivated
      rw [hp]
    dsimp only
    cases hd : p.dormantList.find? fun d => x = (g.hosts d).map6.addr with
    | some d =>
      rw [hd] at hre
      refine .inr ⟨d, g, rfl, .same ?_ ?_ hre⟩
      · rw [dormant_of_pool hp]
        exact List.mem_of_find?_eq_some hd
      · have hx := List.find?_some hd
        exact (of_decide_eq_true hx).symm
    | none =>
      have hnone : ∀ e ∈ g.dormant, g.v6 e ≠ x := by
        intro e he hex
        rw [dormant_of_pool hp] at he
        have hex' : x = (g.hosts e).map6.addr := hex.symm
        exact List.find?_eq_none.1 hd e he (decide_eq_true hex')
      rw [hd] at hre
      dsimp only at hre ⊢
      cases hs : searchFree g p x with
      | some r =>
        obtain ⟨f, a⟩ := r
        obtain ⟨h1, h2, h3, h4⟩ := searchFree_spec (h.runs p hp) hs
        rw [hs] at hre
        simp only [allocMapDynamic_eq]
        cases g.oom with
        | true => exact .inl ⟨rfl, hre⟩
        | false =>
          refine .inr ⟨g.nHosts, { Tayga.fresh g p x a f with mapWritePending := true }, ?_,
            .fresh hp ⟨h1, h2, h3, h4⟩ hnone hre⟩
          have e : ({ Tayga.fresh g p x a f with mapWritePending := true } : Gcfg) =
              withDormant { cut g p x (BitVec.ofNat 32 a) f with mapWritePending := true } g.nHosts := rfl
          rw [e, moveToMapped_withDormant]
          rfl
      | none =>
        rw [hs] at hre
        dsimp only at hre ⊢
        cases hl : p.dormantList.getLast? with
        | none => exact .inl ⟨rfl, hre.trans hl⟩
        | some d =>
          refine .inr ⟨d, { readdress g d x with mapWritePending := true }, rfl, .reuse ?_ hnone (hre.trans hl)⟩
          rw [dormant_of_pool hp]
          exact hl

/-- The lease that rises is dormant. -/
theorem Rise.dormant {x : In6} {d : Nat} {g₁ : Gcfg} (hr : Rise g x d g₁) : d ∈ g₁.dormant := by
  cases hr with
  | same hd => exact hd
  | @fresh p f a =>
    obtain ⟨v, hv⟩ := dynamicPool_fresh (g := g) (p := p) (x := x) (a := a) (f := f)
    have hdor : g.nHosts ∈ (Tayga.fresh g p x a f).dormant := by
      rw [dormant_of_pool hv]
      exact List.mem_cons_self
    exact hdor
  | reuse hl => exact List.mem_of_getLast? hl

/-- Before a lease rises the base invariant holds. -/
theorem Rise.base {x : In6} {d : Nat} {g₁ : Gcfg} (hr : Rise g x d g₁) (h : Base g) (hv : validateIp6Addr x = none) :
    Base g₁ := by
  cases hr with
  | same => exact h
  | fresh hp hf => exact (h.fresh hp hf hv).writePending true
  | reuse hl => exact (h.readdress (List.mem_of_getLast? hl) hv).writePending true

/-- Whatever `assign_dynamic` brings back into use, the base invariant is kept. -/
theorem Base.assignDynamic (h : Base g) {x : In6} (hv : validateIp6Addr x = none) : Base (assignDynamic g x).2 := by
  rcases assignDynamic_rise h x with ⟨e, -⟩ | ⟨d, g₁, e, hr⟩
  · rw [e]
    exact h
  · rw [e]
    exact (hr.base h hv).moveToMapped hr.dormant

/-- Before a lease rises the whole invariant holds, and the searches are as before. -/
private theorem Rise.activating {x : In6} {d : Nat} {g₁ : Gcfg} (hr : Rise g x d g₁) (h : Inv g)
    (hv : validateIp6Addr x = none) (hx : findMap6 g x = none) : Activating g x d g₁ := by
  have honly : ∀ {d : Nat}, reactivated g x = some d → ∀ e, reactivated g x = some e → e = d := by
    intro d hre e he
    rw [hre] at he
    exact (Option.some.inj he).symm
  have hdor := hr.dormant
  cases hr with
  | same hd hdx hre =>
    refine ⟨h, ?_, hd, hdx, fun _ => rfl, fun _ => hd, honly hre, ?_⟩
    · constructor <;> intros <;> rfl
    · exact ⟨fun hs => ⟨hre, hs⟩, fun hs => hs.2⟩
  | fresh hp hf hnone hre =>
    have hl := linkable_fresh h hp hf hx
    refine ⟨(h.fresh hp hf hv hx hnone).writePending true, (sameMapped_fresh h.base hp).writePending true, hdor,
      v6_fresh_self, ?_, ?_, ?_, iff_of_false hl.clear ?_⟩ <;> rw [hre]
    · exact nofun
    · exact nofun
    · exact nofun
    · exact fun hs => nomatch hs.1
  | reuse hl hnone hre =>
    have hd := List.mem_of_getLast? hl
    have hsm := (sameMapped_readdress h.base hd x).writePending true
    refine ⟨(h.readdress hd hv hx hnone).writePending true, hsm, hdor, v6_readdress_self x, fun _ => v4_readdress d d x,
      fun _ => hd, honly hre, ?_⟩
    rw [Shadowed.congr hsm h.maps.toTablesInv (v4_readdress d d x)]
    exact ⟨fun hs => ⟨hre, hs⟩, fun hs => hs.2⟩

/-- `assign_dynamic` assigns nothing and changes nothing, or moves a lease to the mapped list. -/
theorem assignDynamic_cases (h : Inv g) {x : In6} (hv : validateIp6Addr x = none) (hx : findMap6 g x = none) :
    (assignDynamic g x = (none, g) ∧ reactivated g x = none) ∨
    ∃ d g', assignDynamic g x = (some d, moveToMapped g' d) ∧ Activating g x d g' := by
  rcases assignDynamic_rise h.base x with e | ⟨d, g₁, e, hr⟩
  · exact .inl e
  · exact .inr ⟨d, g₁, e, hr.activating h hv hx⟩

end Tayga
