import Tayga.LifetimeProofs

/-!
# The search for a free address is complete

The hash loop of `assign_dynamic` ends, and the two passes over the free runs miss no address: one that the search does
not return is in use, or a more specific map covers it (`searchFree_eq_none`).
-/

namespace Tayga

open FreeRuns FirstMatch BitPrefix

variable {g : Gcfg} {p : DynamicPool}

/-! ### The hash -/

/-- The host part of an address in a network of this length. -/
def hostMask (len : Nat) : BitVec 32 := 0xffffffff >>> len

private theorem toNat_hostMask {len : Nat} (hlen : len ≤ 32) : (hostMask len).toNat = 2 ^ (32 - len) - 1 := by
  have key : ∀ l : Fin 33, (hostMask l).toNat = 2 ^ (32 - (l : Nat)) - 1 := by decide
  exact key ⟨len, by omega⟩

/-- One fold shrinks a value that does not fit. -/
private theorem fold_lt {base : BitVec 32} {len : Nat} (hlen : len ≤ 31) (hne : base &&& ~~~hostMask len ≠ 0) :
    ((base &&& hostMask len) + base >>> (32 - len)).toNat < base.toNat := by
  have hand : (base &&& hostMask len).toNat = base.toNat % 2 ^ (32 - len) := by
    rw [BitVec.toNat_and, toNat_hostMask (by omega), Nat.and_two_pow_sub_one_eq_mod]
  have hshift : (base >>> (32 - len)).toNat = base.toNat / 2 ^ (32 - len) := by
    rw [BitVec.toNat_ushiftRight, Nat.shiftRight_eq_div_pow]
  have hbig : 2 ^ (32 - len) ≤ base.toNat := by
    by_contra hlt
    have hself : base &&& hostMask len = base := by
      apply BitVec.eq_of_toNat_eq
      rw [hand, Nat.mod_eq_of_lt (by omega)]
    apply hne
    rw [← hself, BitVec.and_assoc, BitVec.and_not_self]
    exact BitVec.and_zero
  have htwo : 2 ≤ 2 ^ (32 - len) := Nat.le_self_pow (by omega) 2
  have hdiv := Nat.div_add_mod base.toNat (2 ^ (32 - len))
  have hquot : 0 < base.toNat / 2 ^ (32 - len) := Nat.div_pos hbig (Nat.two_pow_pos _)
  -- the quotient counts at least twice in the value, and once in its fold
  have hmul : 2 * (base.toNat / 2 ^ (32 - len)) ≤ 2 ^ (32 - len) * (base.toNat / 2 ^ (32 - len)) :=
    Nat.mul_le_mul_right _ htwo
  rw [BitVec.toNat_add, hand, hshift]
  have hle := Nat.mod_le (base.toNat % 2 ^ (32 - len) + base.toNat / 2 ^ (32 - len)) (2 ^ 32)
  omega

/-- **The hash loop ends**: with as many rounds as the value counts, it comes to one that fits the host part. -/
theorem foldHash_exits {len : Nat} (hlen : len ≤ 31) {fuel : Nat} {base : BitVec 32} (hfuel : base.toNat ≤ fuel) :
    foldHash (hostMask len) len fuel base &&& ~~~hostMask len = 0 := by
  induction fuel generalizing base with
  | zero =>
    have h0 : base = 0 := BitVec.eq_of_toNat_eq (Nat.le_zero.1 hfuel)
    rw [foldHash, h0]
    exact BitVec.zero_and
  | succ fuel ih =>
    rw [foldHash]
    split
    · assumption
    · rename_i hne
      exact ih (by have := fold_lt hlen hne; omega)

/-! ### One run -/

/-- An address up to the end of the network that covers a smaller one is covered as well. -/
private theorem Map4.Wf.covers_of_le {m : Map4} (h : m.Wf) {a b : In4} (ha : m.covers a = true)
    (hab : a.toNat ≤ b.toNat) (hb : b.toNat ≤ (m.addr ||| ~~~m.mask).toNat) : m.covers b = true := by
  have hlast : m.covers (m.addr ||| ~~~m.mask) = true := by
    have haddr : m.addr = m.mask &&& m.addr := of_decide_eq_true h.covers_addr
    apply decide_eq_true
    rw [BitVec.and_or_distrib_left, BitVec.and_not_self]
    exact haddr.trans BitVec.or_zero.symm
  have hlow := h.normal.inNet_iff_toNat.1 (h.covers_iff.1 ha)
  have hhigh := h.normal.inNet_iff_toNat.1 (h.covers_iff.1 hlast)
  exact h.covers_iff.2 (h.normal.inNet_iff_toNat.2 ⟨by omega, by omega⟩)

/-- Up to the end of a more specific map the pool itself is not found. -/
private theorem findMap4_ne_pool (h : ListWf4 g.map4 g.map4List) (hpool : MapRef.pool ∈ g.map4List) {m : MapRef}
    {a b : In4}
    (hm : findMap4 g a = some m) (hne : m ≠ .pool) (ha : (g.map4 .pool).covers a = true) (hab : a.toNat ≤ b.toNat)
    (hb : b.toNat ≤ ((g.map4 m).addr ||| ~~~(g.map4 m).mask).toNat) : findMap4 g b ≠ some .pool := by
  intro hbp
  obtain ⟨hmem, hcov, hmax⟩ := h.find_eq_some.1 hm
  obtain ⟨-, -, hpmax⟩ := h.find_eq_some.1 hbp
  have hmb := (h.wf m hmem).covers_of_le hcov hab hb
  have hlen : (g.map4 m).prefixLen = (g.map4 .pool).prefixLen := by
    have h1 := hmax .pool hpool ha
    have h2 := hpmax m hmem hmb
    omega
  exact hne (h.distinct m hmem .pool hpool ((h.wf m hmem).same_of_covers (h.wf .pool hpool) hlen hcov ha))

/-- **The walk over a free run misses no address of the pool.** -/
theorem searchRun_eq_none (h : ListWf4 g.map4 g.map4List) (hpool : MapRef.pool ∈ g.map4List) {fuel addr stop : Nat}
    (hstop : stop ≤ 2 ^ 32) (hcov : ∀ a, addr ≤ a → a < stop → (g.map4 .pool).covers (BitVec.ofNat 32 a) = true)
    (hfuel : stop - addr ≤ fuel) (hs : searchRun g fuel addr stop = none) {a : Nat} (hlow : addr ≤ a)
    (hhigh : a < stop) :
    findMap4 g (BitVec.ofNat 32 a) ≠ some .pool := by
  induction fuel generalizing addr with
  | zero => omega
  | succ fuel ih =>
    have haddr : (BitVec.ofNat 32 addr).toNat = addr := by
      rw [BitVec.toNat_ofNat, Nat.mod_eq_of_lt (by omega)]
    have hato : (BitVec.ofNat 32 a).toNat = a := by
      rw [BitVec.toNat_ofNat, Nat.mod_eq_of_lt (by omega)]
    have hc := hcov addr (Nat.le_refl _) (by omega)
    unfold searchRun at hs
    rw [if_pos (by omega)] at hs
    split at hs
    · cases hs
    · rename_i hf
      -- the pool itself covers the address
      have := List.find?_eq_none.1 hf .pool hpool
      exact absurd hc this
    · rename_i m hm hf
      have hne : m ≠ .pool := by
        rintro rfl
        exact hm rfl
      have hle := le_last_of_covers (@List.find?_some _ (fun n => (g.map4 n).covers (BitVec.ofNat 32 addr)) _ _ hf)
      rw [haddr] at hle
      by_cases hlast : a ≤ ((g.map4 m).addr ||| ~~~(g.map4 m).mask).toNat
      · exact findMap4_ne_pool h hpool hf hne hc (by omega) (by omega)
      · exact ih (fun b hb => hcov b (by omega)) (by omega) hs (by omega)

/-! ### The whole pool -/

theorem searchPass_eq_none (h : ListWf4 g.map4 g.map4List) (hpool : MapRef.pool ∈ g.map4List) {l : List FreeRef}
    (hle : ∀ f ∈ l, (g.run f).1 + (g.run f).2 + 1 ≤ 2 ^ 32)
    (hcov : ∀ f ∈ l, ∀ a, (g.run f).1 ≤ a → a ≤ (g.run f).1 + (g.run f).2 →
      (g.map4 .pool).covers (BitVec.ofNat 32 a) = true)
    {low high : Nat} (hs : searchPass g l low high = none) {f : FreeRef} (hf : f ∈ l) {a : Nat}
    (hlow : (g.freeAddr f).addr < a) (hhigh : a ≤ (g.freeAddr f).addr + (g.freeAddr f).count) (hla : low ≤ a)
    (hah : a < high) : findMap4 g (BitVec.ofNat 32 a) ≠ some .pool := by
  unfold searchPass at hs
  have hrun := Option.map_eq_none_iff.1 (List.findSome?_eq_none_iff.1 hs f hf)
  have hend := hle f hf
  simp only [Gcfg.run] at hend
  refine searchRun_eq_none h hpool (by omega) (fun b hb hb' => hcov f hf b ?_ ?_) (Nat.le_refl _) hrun (by omega)
    (by omega)
  · simp only [Gcfg.run]
    omega
  · simp only [Gcfg.run]
    omega

/-- The pool of a state is among its maps, and its entry is a network. -/
theorem Base.pool_mem (h : Base g) (hp : g.dynamicPool = some p) :
    MapRef.pool ∈ g.map4List ∧ g.map4 .pool = p.map4 ∧ p.map4.Wf := by
  have hmem : MapRef.pool ∈ g.map4List := h.tables.pool4.2 (by rw [hp]; rfl)
  have heq : g.map4 .pool = p.map4 := by simp only [Gcfg.map4, hp]
  exact ⟨hmem, heq, heq ▸ h.tables.list4.wf _ hmem⟩

/-- The pool covers the addresses from its base on. -/
private theorem Base.pool_covers (h : Base g) (hp : g.dynamicPool = some p) {a : In4} :
    p.map4.covers a = true ↔
      p.map4.addr.toNat ≤ a.toNat ∧ a.toNat < p.map4.addr.toNat + 2 ^ (32 - p.map4.prefixLen) := by
  obtain ⟨-, -, hwf⟩ := h.pool_mem hp
  rw [hwf.covers_iff, hwf.normal.inNet_iff_toNat]

/-- The addresses of a run belong to the pool. -/
private theorem Base.run_covers (h : Base g) (hp : g.dynamicPool = some p) {f : FreeRef} (hf : f ∈ p.freeList) {a : Nat}
    (hlow : (g.run f).1 ≤ a) (hhigh : a ≤ (g.run f).1 + (g.run f).2) : p.map4.covers (BitVec.ofNat 32 a) = true := by
  have hruns := h.runs p hp
  have hb := hruns.chain.bounds _ (List.mem_map_of_mem hf)
  have hstop := hruns.stop_le
  rw [h.pool_covers hp, BitVec.toNat_ofNat, Nat.mod_eq_of_lt (by omega)]
  omega

/-- **The search misses no address**: if it returns none, every free one is covered by a more specific map. -/
theorem searchFree_eq_none (h : Base g) (hp : g.dynamicPool = some p) {x : In6} (hs : searchFree g p x = none)
    {f : FreeRef} (hf : f ∈ p.freeList) {a : Nat} (hlow : (g.freeAddr f).addr < a)
    (hhigh : a ≤ (g.freeAddr f).addr + (g.freeAddr f).count) : findMap4 g (BitVec.ofNat 32 a) ≠ some .pool := by
  obtain ⟨hmem, heq, hwf⟩ := h.pool_mem hp
  have hruns := h.runs p hp
  have hle := fun r hr => hruns.run_le (r := r) hr
  have hcov : ∀ r ∈ p.freeList, ∀ b, (g.run r).1 ≤ b → b ≤ (g.run r).1 + (g.run r).2 →
      (g.map4 .pool).covers (BitVec.ofNat 32 b) = true := by
    intro r hr b hb hb'
    rw [heq]
    exact h.run_covers hp hr hb hb'
  have hhead : p.freeHead.addr = p.map4.addr.toNat := by
    have := hruns.head_addr
    simpa only [Gcfg.freeAddr, hp] using this
  have hsize : (0xffffffff >>> p.map4.prefixLen : BitVec 32).toNat = 2 ^ (32 - p.map4.prefixLen) - 1 :=
    toNat_hostMask hwf.len_le
  have hpos := Nat.two_pow_pos (32 - p.map4.prefixLen)
  have hb := hruns.chain.bounds _ (List.mem_map_of_mem hf)
  simp only [Gcfg.run] at hb
  unfold searchFree at hs
  dsimp only at hs
  generalize p.freeHead.addr ||| (dynamicHash g x (0xffffffff >>> p.map4.prefixLen) p.map4.prefixLen &&&
    (0xffffffff >>> p.map4.prefixLen)).toNat = first at hs
  split at hs
  · cases hs
  · rename_i hfirst
    -- the address is in one of the two halves of the circular range
    by_cases hhalf : first ≤ a
    · refine searchPass_eq_none h.tables.list4 hmem hle hcov hfirst hf hlow hhigh hhalf ?_
      rw [hhead, hsize]
      omega
    · refine searchPass_eq_none h.tables.list4 hmem hle hcov hs hf hlow hhigh ?_ (by omega)
      omega

/-! ### Usable addresses -/

/-- An address `assign_dynamic` may give to a new host: it belongs to the pool and is not its lowest address, no more
specific map covers it, and no lease holds it. -/
structure Usable (g : Gcfg) (p : DynamicPool) (a : In4) : Prop where
  pool : p.map4.covers a = true
  base : a ≠ p.map4.addr
  map : ∀ m ∈ g.map4List, (g.map4 m).covers a = true → (g.map4 m).prefixLen ≤ p.map4.prefixLen
  lease : ∀ d ∈ g.leases, g.v4 d ≠ a

/-- The usable addresses are the free ones of the runs that no more specific map covers. -/
theorem usable_iff (h : Base g) (hp : g.dynamicPool = some p) {a : In4} :
    Usable g p a ↔ ∃ f, FreeIn g p f a.toNat := by
  obtain ⟨hmem, heq, hwf⟩ := h.pool_mem hp
  have hruns := h.runs p hp
  have hfind : findMap4 g a = some .pool ↔ p.map4.covers a = true ∧
      ∀ m ∈ g.map4List, (g.map4 m).covers a = true → (g.map4 m).prefixLen ≤ p.map4.prefixLen := by
    rw [findMap4_eq, h.tables.list4.find_eq_some, heq]
    exact and_iff_right hmem
  have hlease : ∀ d, d ∈ g.leases ↔ FreeRef.host d ∈ p.freeList := by
    intro d
    rw [Gcfg.leases, mapped_of_pool hp, dormant_of_pool hp, List.mem_append, hruns.hosts]
  have haddr : ∀ d, FreeRef.host d ∈ p.freeList → (g.run (.host d)).1 = (g.v4 d).toNat := by
    intro d hd
    exact hruns.addr d ((hruns.hosts d).1 hd)
  constructor
  · intro hu
    have hrange := (h.pool_covers hp).1 hu.pool
    obtain ⟨l₁, r, l₂, hl, -, hlow, hhigh⟩ := hruns.chain.exists_run hrange.1 hrange.2
    have hr : r ∈ p.freeList.map g.run := by rw [hl]; simp
    obtain ⟨f, hf, rfl⟩ := List.mem_map.1 hr
    -- the run starts below the address, which nobody holds
    have hne : (g.run f).1 ≠ a.toNat := by
      cases f with
      | head =>
        intro he
        apply hu.base
        apply BitVec.eq_of_toNat_eq
        rw [← he]
        exact hruns.head_addr
      | host d =>
        intro he
        apply hu.lease d ((hlease d).2 hf)
        apply BitVec.eq_of_toNat_eq
        rw [← he, haddr d hf]
    refine ⟨f, hf, ?_, hhigh, ?_⟩
    · simp only [Gcfg.run] at hlow hne
      omega
    · rw [BitVec.ofNat_toNat, BitVec.setWidth_eq]
      exact hfind.2 ⟨hu.pool, hu.map⟩
  · rintro ⟨f, hf, hlow, hhigh, hfound⟩
    rw [BitVec.ofNat_toNat, BitVec.setWidth_eq] at hfound
    obtain ⟨hcov, hmap⟩ := hfind.1 hfound
    have hfr : g.run f ∈ p.freeList.map g.run := List.mem_map_of_mem hf
    refine ⟨hcov, ?_, hmap, ?_⟩
    · rintro rfl
      have hb := hruns.chain.bounds _ hfr
      simp only [Gcfg.run] at hb
      omega
    · intro d hd he
      have hd' := (hlease d).1 hd
      have hnot := hruns.chain.start_not_free hfr (List.mem_map_of_mem (f := g.run) hd')
      rw [haddr d hd', he] at hnot
      exact hnot ⟨hlow, hhigh⟩

/-! ### The outcome of an assignment -/

/-- What `assign_dynamic` does for the address `x`: it brings the host's own dormant lease back; else it gives a new
lease a usable address; else it takes the oldest dormant lease over; else it refuses. -/
inductive Assigned (g : Gcfg) (p : DynamicPool) (x : In6) : Option Nat → Gcfg → Prop where
  | own {d : Nat} {g' : Gcfg} (hd : d ∈ g.dormant) (hx : g.v6 d = x) (hmapped : d ∈ g'.mapped) (h6 : g'.v6 d = x)
      (h4 : g'.v4 d = g.v4 d) : Assigned g p x (some d) g'
  | fresh {d : Nat} {g' : Gcfg} (hnone : ∀ e ∈ g.dormant, g.v6 e ≠ x) (hnew : d ∉ g.leases) (hmapped : d ∈ g'.mapped)
      (h6 : g'.v6 d = x) (h4 : Usable g p (g'.v4 d)) : Assigned g p x (some d) g'
  | takenOver {d : Nat} {g' : Gcfg} (hnone : ∀ e ∈ g.dormant, g.v6 e ≠ x) (hfull : ∀ a, ¬Usable g p a)
      (hd : d ∈ g.dormant) (holdest : ∀ e ∈ g.dormant, (g.hosts d).lastUse ≤ (g.hosts e).lastUse)
      (hmapped : d ∈ g'.mapped) (h6 : g'.v6 d = x) (h4 : g'.v4 d = g.v4 d) : Assigned g p x (some d) g'
  | refused (hfull : ∀ a, ¬Usable g p a) (hempty : g.dormant = []) : Assigned g p x none g

private theorem moveToMapped_frame (g : Gcfg) (d : Nat) : (moveToMapped g d).hosts = g.hosts ∧
    (g.dynamicPool.isSome → d ∈ (moveToMapped g d).mapped) := by
  have h4 : ∀ s m, (tryInsertMap4 s m).hosts = s.hosts ∧ (tryInsertMap4 s m).dynamicPool = s.dynamicPool := by
    intro s m
    unfold tryInsertMap4 insertMap4
    cases s.map4List.find? fun e => (s.map4 e).same (s.map4 m) <;> exact ⟨rfl, rfl⟩
  have h6 : ∀ s m, (tryInsertMap6 s m).hosts = s.hosts ∧ (tryInsertMap6 s m).dynamicPool = s.dynamicPool := by
    intro s m
    unfold tryInsertMap6 insertMap6
    cases s.map6List.find? fun e => (s.map6 e).clash (s.map6 m) <;> exact ⟨rfl, rfl⟩
  unfold moveToMapped
  refine ⟨(h6 _ _).1.trans (h4 _ _).1, fun hp => ?_⟩
  obtain ⟨p, hp⟩ := Option.isSome_iff_exists.1 hp
  simp only [Gcfg.mapped, (h6 _ _).2, (h4 _ _).2, hp, Option.map_some]
  exact List.mem_cons_self

private theorem v4_of_hosts {g g' : Gcfg} (h : g'.hosts = g.hosts) (d : Nat) : g'.v4 d = g.v4 d ∧ g'.v6 d = g.v6 d := by
  unfold Gcfg.v4 Gcfg.v6
  rw [h]
  exact ⟨rfl, rfl⟩

/-- No usable address is left when the search finds none. -/
private theorem not_usable (h : Base g) (hp : g.dynamicPool = some p) {x : In6} (hs : searchFree g p x = none)
    (a : In4) :
    ¬Usable g p a := by
  intro hu
  obtain ⟨f, hf⟩ := (usable_iff h hp).1 hu
  exact searchFree_eq_none h hp hs hf.mem hf.low hf.high hf.pool

/-- A lease that the search does not stand in the way of is brought back only if nothing is usable. -/
private theorem searchFree_of_reactivated (hp : g.dynamicPool = some p) {x : In6} {d : Nat}
    (hnone : ∀ e ∈ g.dormant, g.v6 e ≠ x) (hre : reactivated g x = some d) : searchFree g p x = none := by
  have hfind : p.dormantList.find? (fun d => x = (g.hosts d).map6.addr) = none := by
    rw [List.find?_eq_none]
    intro e he hx
    rw [← dormant_of_pool hp] at he
    exact hnone e he (of_decide_eq_true hx).symm
  unfold reactivated at hre
  simp only [hp, hfind] at hre
  cases hs : searchFree g p x with
  | none => rfl
  | some r =>
    rw [hs] at hre
    cases hre

/-- Nothing is assigned only if nothing is usable and no lease is dormant. -/
private theorem assignDynamic_refused (h : Base g) (hp : g.dynamicPool = some p) (hoom : g.oom = false) {x : In6}
    (hr : assignDynamic g x = (none, g)) : (∀ a, ¬Usable g p a) ∧ g.dormant = [] := by
  unfold assignDynamic at hr
  simp only [hp] at hr
  cases hd : p.dormantList.find? fun d => x = (g.hosts d).map6.addr with
  | some d =>
    rw [hd] at hr
    cases (Prod.mk.inj hr).1
  | none =>
    rw [hd] at hr
    dsimp only at hr
    cases hs : searchFree g p x with
    | some r =>
      rw [hs] at hr
      dsimp only at hr
      rw [allocMapDynamic_eq, hoom] at hr
      cases (Prod.mk.inj hr).1
    | none =>
      rw [hs] at hr
      refine ⟨not_usable h hp hs, ?_⟩
      cases hl : p.dormantList.getLast? with
      | some d =>
        rw [hl] at hr
        cases (Prod.mk.inj hr).1
      | none =>
        rw [dormant_of_pool hp]
        exact List.getLast?_eq_none_iff.1 hl

/-- The last dormant lease is the oldest one. -/
theorem Sorted.oldest (h : Sorted g) {d : Nat} (hl : g.dormant.getLast? = some d) :
    ∀ e ∈ g.dormant, (g.hosts d).lastUse ≤ (g.hosts e).lastUse := by
  intro e he
  obtain ⟨k, hk⟩ := List.getLast?_eq_some_iff.1 hl
  rw [Sorted, hk] at h
  rw [hk] at he
  rcases List.mem_append.1 he with he | he
  · exact (List.pairwise_append.1 h).2.2 e he d (List.mem_singleton_self d)
  · obtain rfl := List.mem_singleton.1 he
    exact Int.le_refl _

/-- **`assign_dynamic` is sound and complete**, when allocation succeeds and the dormant leases are in order. -/
theorem assignDynamic_assigned (h : Base g) (hsort : Sorted g) (hp : g.dynamicPool = some p) (hoom : g.oom = false)
    (x : In6) : Assigned g p x (assignDynamic g x).1 (assignDynamic g x).2 := by
  rcases assignDynamic_rise h x with ⟨hr, -⟩ | ⟨d, g₁, hr, hrise⟩
  · obtain ⟨hfull, hempty⟩ := assignDynamic_refused h hp hoom hr
    rw [hr]
    exact .refused hfull hempty
  · have hdor := hrise.dormant
    obtain ⟨p₁, hp₁⟩ := exists_pool (.inr hdor)
    obtain ⟨hhosts, hmapped⟩ := moveToMapped_frame g₁ d
    have hmapped := hmapped (by rw [hp₁]; rfl)
    obtain ⟨h4, h6⟩ := v4_of_hosts hhosts d
    rw [hr]
    cases hrise with
    | same hd hx hre => exact .own hd hx hmapped (h6.trans hx) h4
    | @fresh q f a hq hf hnone hre =>
      obtain rfl : p = q := Option.some.inj (hp.symm.trans hq)
      have hruns := h.runs p hp
      have hv4 : (moveToMapped { Tayga.fresh g p x a f with mapWritePending := true } g.nHosts).v4 g.nHosts =
          BitVec.ofNat 32 a := h4.trans v4_fresh_self
      refine .fresh hnone ?_ hmapped (h6.trans v6_fresh_self) ?_
      · intro hin
        rw [Gcfg.leases, mapped_of_pool hp, dormant_of_pool hp, List.mem_append] at hin
        exact absurd (hruns.lease_lt _ hin) (Nat.lt_irrefl _)
      · rw [hv4, usable_iff h hp]
        exact ⟨f, by rw [hf.toNat hruns]; exact hf⟩
    | reuse hl hnone hre =>
      have hs := searchFree_of_reactivated hp hnone hre
      exact .takenOver hnone (not_usable h hp hs) (List.mem_of_getLast? hl) (hsort.oldest hl) hmapped
        (h6.trans (v6_readdress_self x)) (h4.trans (v4_readdress d d x))

end Tayga
