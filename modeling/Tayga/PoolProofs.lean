import Tayga.CacheProofs

/-!
# Leases and free runs

Cutting an address out of a free run and merging it back keep the runs of the pool in order (`PoolInv`).  Two leases
never hold the same IPv4 address, because leases start runs (`PoolInv.v4_inj`), and the search of `assign_dynamic`
only finds addresses inside a free run that belong to the pool itself (`searchFree_spec`).
-/

namespace Tayga

open FreeRuns

variable {g : Gcfg} {p : DynamicPool}

/-! ### Leases have distinct addresses -/

theorem RunsInv.lease_mem (h : RunsInv g p) {d : Nat} (hd : d ∈ p.mappedList ∨ d ∈ p.dormantList) :
    FreeRef.host d ∈ p.freeList := (h.hosts d).2 hd

/-- The starts of distinct runs differ. -/
theorem RunsInv.start_inj (h : RunsInv g p) {r s : FreeRef} (hr : r ∈ p.freeList) (hs : s ∈ p.freeList)
    (he : (g.run r).1 = (g.run s).1) : r = s := by
  have hlt := h.chain.starts_lt
  rw [List.pairwise_map] at hlt
  have hget := List.pairwise_iff_getElem.1 hlt
  by_contra hne
  obtain ⟨i, hi, rfl⟩ := List.getElem_of_mem hr
  obtain ⟨j, hj, rfl⟩ := List.getElem_of_mem hs
  rcases Nat.lt_trichotomy i j with hij | hij | hij
  · have := hget i j hi hj hij
    omega
  · subst hij
    exact hne rfl
  · have := hget j i hj hi hij
    omega

/-- No two leases hold the same IPv4 address. -/
theorem RunsInv.v4_inj (h : RunsInv g p) {d e : Nat} (hd : d ∈ p.mappedList ∨ d ∈ p.dormantList)
    (he : e ∈ p.mappedList ∨ e ∈ p.dormantList) (hv : g.v4 d = g.v4 e) : d = e := by
  have := h.start_inj (h.lease_mem hd) (h.lease_mem he) (by
    change (g.hosts d).free.addr = (g.hosts e).free.addr
    rw [h.addr d hd, h.addr e he, hv])
  cases this
  rfl

/-- A run ends within the address space. -/
theorem RunsInv.run_le (h : RunsInv g p) {r : FreeRef} (hr : r ∈ p.freeList) :
    (g.run r).1 + (g.run r).2 + 1 ≤ 2 ^ 32 := by
  have := (h.chain.bounds _ (List.mem_map_of_mem hr)).2
  have := h.stop_le
  omega

/-! ### The search for a free address -/

/-- The last address of the network that covers `a` is not below `a`. -/
theorem le_last_of_covers {m : Map4} {a : In4} (h : m.covers a = true) : a.toNat ≤ (m.addr ||| ~~~m.mask).toNat := by
  have hm : m.addr = m.mask &&& a := by simpa [Map4.covers] using h
  have hand : a &&& (m.addr ||| ~~~m.mask) = a := by
    rw [hm]
    apply BitVec.eq_of_getLsbD_eq
    intro i hi
    simp only [BitVec.getLsbD_and, BitVec.getLsbD_or, BitVec.getLsbD_not, hi, decide_true, Bool.true_and]
    cases a.getLsbD i <;> cases m.mask.getLsbD i <;> rfl
  have := congrArg BitVec.toNat hand
  rw [BitVec.toNat_and] at this
  rw [← this]
  exact Nat.and_le_right

private theorem searchRun_spec {fuel addr stop a : Nat} (hstop : stop ≤ 2 ^ 32)
    (h : searchRun g fuel addr stop = some a) :
    addr ≤ a ∧ a < stop ∧ findMap4 g (BitVec.ofNat 32 a) = some .pool := by
  induction fuel generalizing addr with
  | zero => cases h
  | succ fuel ih =>
    unfold searchRun at h
    split at h
    · rename_i hlt
      split at h
      · rename_i hf
        cases h
        exact ⟨Nat.le_refl _, hlt, hf⟩
      · cases h
      · rename_i m hm hf
        obtain ⟨h1, h2, h3⟩ := ih h
        have hcov : (g.map4 m).covers (BitVec.ofNat 32 addr) = true :=
          @List.find?_some _ (fun n => (g.map4 n).covers (BitVec.ofNat 32 addr)) _ _ hf
        have hle := le_last_of_covers hcov
        rw [BitVec.toNat_ofNat, Nat.mod_eq_of_lt (by omega)] at hle
        exact ⟨by omega, h2, h3⟩
    · cases h

private theorem searchPass_spec {l : List FreeRef} {low high a : Nat} {f : FreeRef}
    (hf : ∀ r ∈ l, (g.run r).1 + (g.run r).2 + 1 ≤ 2 ^ 32) (hs : searchPass g l low high = some (f, a)) :
    f ∈ l ∧ (g.freeAddr f).addr < a ∧ a ≤ (g.freeAddr f).addr + (g.freeAddr f).count ∧
      findMap4 g (BitVec.ofNat 32 a) = some .pool := by
  unfold searchPass at hs
  obtain ⟨r, hr, hrs⟩ := List.exists_of_findSome?_eq_some hs
  simp only [Option.map_eq_some_iff, Prod.mk.injEq] at hrs
  obtain ⟨b, hb, rfl, rfl⟩ := hrs
  have hle := hf r hr
  obtain ⟨h1, h2, h3⟩ := searchRun_spec (by simp only [Gcfg.run] at hle; omega) hb
  exact ⟨hr, by omega, by omega, h3⟩

/-- The search of `assign_dynamic` finds an address inside a free run that no more specific map covers. -/
theorem searchFree_spec (h : RunsInv g p) {addr6 : In6} {f : FreeRef} {a : Nat}
    (hs : searchFree g p addr6 = some (f, a)) :
    f ∈ p.freeList ∧ (g.freeAddr f).addr < a ∧ a ≤ (g.freeAddr f).addr + (g.freeAddr f).count ∧
      findMap4 g (BitVec.ofNat 32 a) = some .pool := by
  have hf := fun r hr => h.run_le (r := r) hr
  unfold searchFree at hs
  simp only [] at hs
  split at hs
  · rename_i r hr
    cases hs
    exact searchPass_spec hf hr
  · exact searchPass_spec hf hs

/-! ### Regrouping the leases -/

/-- The runs do not care which of the leases are in use. -/
theorem RunsInv.regroup (h : RunsInv g p) {g' : Gcfg} {p' : DynamicPool} (h4 : p'.map4 = p.map4)
    (hf : p'.freeList = p.freeList) (hr : g'.run = g.run)
    (hm : ∀ d, d ∈ p'.mappedList ∨ d ∈ p'.dormantList ↔ d ∈ p.mappedList ∨ d ∈ p.dormantList)
    (hn : (p'.mappedList ++ p'.dormantList).Nodup) (hh : g'.hosts = g.hosts) (hN : g'.nHosts = g.nHosts) :
    RunsInv g' p' where
  stop_le := by rw [h4]; exact h.stop_le
  chain := by rw [h4, hf, hr]; exact h.chain
  head := by rw [hf]; exact h.head
  nodup := by rw [hf]; exact h.nodup
  hosts d := by rw [hf, hm]; exact h.hosts d
  nodup_leases := hn
  lease_lt d hd := by rw [hN]; exact h.lease_lt d ((hm d).1 hd)
  addr d hd := by
    rw [hh]
    unfold Gcfg.v4
    rw [hh]
    exact h.addr d ((hm d).1 hd)

/-- The pool does not care which of its leases are in use. -/
theorem PoolInv.regroup (h : PoolInv g p) {g' : Gcfg} {p' : DynamicPool} (h4 : p'.map4 = p.map4)
    (hf : p'.freeList = p.freeList) (hr : g'.run = g.run)
    (hm : ∀ d, d ∈ p'.mappedList ∨ d ∈ p'.dormantList ↔ d ∈ p.mappedList ∨ d ∈ p.dormantList)
    (hn : (p'.mappedList ++ p'.dormantList).Nodup) (hh : g'.hosts = g.hosts) (hN : g'.nHosts = g.nHosts)
    (hl : g'.localAddr4 = g.localAddr4) : PoolInv g' p' where
  toRunsInv := h.toRunsInv.regroup h4 hf hr hm hn hh hN
  v6_inj d e hd he := by
    unfold Gcfg.v6
    rw [hh]
    exact h.v6_inj d e ((hm d).1 hd) ((hm e).1 he)
  not_own d hd := by
    unfold Gcfg.v4
    rw [hh, hl]
    exact h.not_own d ((hm d).1 hd)

end Tayga
