import Tayga.Assignment

/-!
# Maintenance and the invariant

`dynamic_maint` makes idle leases dormant and expires dormant ones; `addrmap_maint` and the flush of `addrmap_reload`
release cache entries.  All of it keeps the invariant.
-/

namespace Tayga

open FreeRuns FirstMatch

variable {g : Gcfg} {p : DynamicPool}

/-! ### Making a lease dormant -/

private theorem dormantInsert_perm (d : Nat) (l : List Nat) : (dormantInsert g d l).Perm (d :: l) := by
  unfold dormantInsert
  split
  · rename_i h
    rw [List.getLast?_eq_none_iff.1 h]
  · split
    · exact List.perm_append_singleton d l
    · exact insertBefore_perm _ d l

section Dormant

variable {d : Nat}

private theorem map4_moveToDormant : (moveToDormant g d).map4 = g.map4 := by
  funext r
  cases r with
  | static i => rfl
  | pool =>
    simp only [Gcfg.map4, moveToDormant, delMap4, delMap6]
    cases g.dynamicPool <;> rfl
  | host e => rfl

private theorem map6_moveToDormant : (moveToDormant g d).map6 = g.map6 := by
  funext r
  cases r <;> rfl

private theorem run_moveToDormant : (moveToDormant g d).run = g.run := by
  funext r
  cases r with
  | head =>
    simp only [Gcfg.run, Gcfg.freeAddr, moveToDormant, delMap4, delMap6]
    cases g.dynamicPool <;> rfl
  | host e => rfl

theorem mem4_moveToDormant {m : MapRef} : m ∈ (moveToDormant g d).map4List ↔ m ∈ g.map4List ∧ m ≠ .host d := by
  have : (moveToDormant g d).map4List = g.map4List.filter (· ≠ .host d) := rfl
  rw [this, List.mem_filter, decide_eq_true_eq]

theorem mem6_moveToDormant {m : MapRef} : m ∈ (moveToDormant g d).map6List ↔ m ∈ g.map6List ∧ m ≠ .host d := by
  have : (moveToDormant g d).map6List = g.map6List.filter (· ≠ .host d) := rfl
  rw [this, List.mem_filter, decide_eq_true_eq]

theorem dynamicPool_moveToDormant (hp : g.dynamicPool = some p) : ∃ l, l.Perm (d :: p.dormantList.filter (· ≠ d)) ∧
    (moveToDormant g d).dynamicPool = some { p with
      mappedList := p.mappedList.filter (· ≠ d)
      dormantList := l } := by
  refine ⟨_, dormantInsert_perm (g := delMap6 (delMap4 g (.host d)) (.host d)) d _, ?_⟩
  unfold moveToDormant
  simp only []
  have e : (delMap6 (delMap4 g (.host d)) (.host d)).dynamicPool = some p := hp
  rw [e]
  rfl

theorem mem_mapped_moveToDormant (hp : g.dynamicPool = some p) {e : Nat} :
    e ∈ (moveToDormant g d).mapped ↔ e ∈ g.mapped ∧ e ≠ d := by
  obtain ⟨l, -, hl⟩ := dynamicPool_moveToDormant (d := d) hp
  rw [mapped_of_pool hl, mapped_of_pool hp, List.mem_filter, decide_eq_true_eq]

theorem mem_dormant_moveToDormant (hp : g.dynamicPool = some p) {e : Nat} :
    e ∈ (moveToDormant g d).dormant ↔ e = d ∨ e ∈ g.dormant := by
  obtain ⟨l, hperm, hl⟩ := dynamicPool_moveToDormant (d := d) hp
  rw [dormant_of_pool hl, dormant_of_pool hp]
  simp only []
  rw [hperm.mem_iff, List.mem_cons, List.mem_filter, decide_eq_true_eq]
  by_cases he : e = d <;> simp [he]

/-- A search that did not return the lease is not affected. -/
theorem findMap4_moveToDormant {a : In4} (h : findMap4 g a ≠ some (.host d)) :
    findMap4 (moveToDormant g d) a = findMap4 g a := by
  rw [findMap4_eq, map4_moveToDormant]
  exact find?_filter_ne h

private theorem findMap6_moveToDormant {x : In6} (h : findMap6 g x ≠ some (.host d)) :
    findMap6 (moveToDormant g d) x = findMap6 g x := by
  rw [findMap6_eq, map6_moveToDormant]
  exact find?_filter_ne h

/-- Making a lease dormant, or moving a dormant one to its place, keeps the base invariant. -/
theorem Base.moveToDormant (h : Base g) (hd : d ∈ g.mapped ∨ d ∈ g.dormant) : Base (moveToDormant g d) := by
  obtain ⟨p, hp⟩ := exists_pool hd
  have hdp : d ∈ p.mappedList ∨ d ∈ p.dormantList := by rwa [← mapped_of_pool hp, ← dormant_of_pool hp]
  obtain ⟨l, hperm, hl⟩ := dynamicPool_moveToDormant (d := d) hp
  have hmem : ∀ e, e ∈ (Tayga.moveToDormant g d).mapped ∨ e ∈ (Tayga.moveToDormant g d).dormant →
      e ∈ g.mapped ∨ e ∈ g.dormant := by
    intro e he
    rw [mem_mapped_moveToDormant hp, mem_dormant_moveToDormant hp] at he
    rcases he with he | rfl | he
    · exact Or.inl he.1
    · exact hd
    · exact Or.inr he
  refine ⟨?_, ?_, fun e he => h.valid e (hmem e he), ⟨h.cache.size, h.cache.nodup, h.cache.hash4, h.cache.hash6,
    h.cache.unique⟩⟩
  · refine h.tables.of_lists rfl rfl rfl rfl rfl rfl (by rw [hl, hp]; rfl)
      (by rw [map4_moveToDormant]; exact h.tables.list4.filter _)
      (by rw [map6_moveToDormant]; exact h.tables.list6.filter _)
      (fun m hm => by rw [mem4_moveToDormant]; exact and_iff_left (hm d))
      (fun m hm => by rw [mem6_moveToDormant]; exact and_iff_left (hm d)) ?_ ?_
      fun e he => h.tables.host_ok e (hmem e he)
    · intro e he
      obtain ⟨he, hne⟩ := mem4_moveToDormant.1 he
      exact (mem_mapped_moveToDormant hp).2 ⟨h.tables.host4 e he, by simpa using hne⟩
    · intro e he
      obtain ⟨he, hne⟩ := mem6_moveToDormant.1 he
      exact (mem_mapped_moveToDormant hp).2 ⟨h.tables.host6 e he, by simpa using hne⟩
  · intro p' hp'
    rw [hl] at hp'
    cases hp'
    refine (h.runs p hp).regroup rfl rfl run_moveToDormant ?_ ?_ rfl rfl
    · intro e
      simp only []
      rw [hperm.mem_iff, List.mem_cons, List.mem_filter, List.mem_filter, decide_eq_true_eq]
      by_cases he : e = d
      · simp [he, hdp]
      · simp [he]
    · simp only []
      rw [(hperm.append_left _).nodup_iff, List.perm_middle.nodup_iff, ← List.filter_append, List.nodup_cons]
      exact ⟨by simp, (h.runs p hp).nodup_leases.filter _⟩

/-- Making a lease dormant that no cache entry belongs to, or moving a dormant one to its place, keeps the invariant. -/
theorem Inv.moveToDormant (h : Inv g) (hd : d ∈ g.mapped ∨ d ∈ g.dormant) (hc : (g.hosts d).cacheEntry = none) :
    Inv (moveToDormant g d) := by
  obtain ⟨p, hp⟩ := exists_pool hd
  have hdp : d ∈ p.mappedList ∨ d ∈ p.dormantList := by rwa [← mapped_of_pool hp, ← dormant_of_pool hp]
  have hb := h.base.moveToDormant hd
  -- no cached pair is that of the lease
  have hne : d ∈ g.mapped → ∀ c ∈ g.cacheActive, (g.entries c).addr4 ≠ g.v4 d := by
    intro hdm c hca h4
    have := (h.link.link d hdm c).2 ⟨hca, h4⟩
    rw [hc] at this
    cases this
  refine ⟨⟨hb.tables, ?_, ?_⟩, ?_, hb.valid, hb.cache, ?_, ?_⟩
  · intro e he
    obtain ⟨he, hed⟩ := (mem_mapped_moveToDormant hp).1 he
    exact mem4_moveToDormant.2 ⟨h.maps.listed4 e he, by simpa using hed⟩
  · intro e he
    obtain ⟨he, hed⟩ := (mem_mapped_moveToDormant hp).1 he
    exact mem6_moveToDormant.2 ⟨h.maps.listed6 e he, by simpa using hed⟩
  · intro p' hp'
    refine ⟨hb.runs p' hp', ?_, ?_⟩
    all_goals
      have hmem : ∀ e, e ∈ p'.mappedList ∨ e ∈ p'.dormantList → e ∈ p.mappedList ∨ e ∈ p.dormantList := by
        intro e he
        rw [← mapped_of_pool hp', ← dormant_of_pool hp', mem_mapped_moveToDormant hp, mem_dormant_moveToDormant hp]
            at he
        rw [← mapped_of_pool hp, ← dormant_of_pool hp]
        rcases he with he | rfl | he
        · exact Or.inl he.1
        · exact hd
        · exact Or.inr he
    · exact fun e e' he he' => (h.pool p hp).v6_inj e e' (hmem e he) (hmem e' he')
    · exact fun e he => (h.pool p hp).not_own e (hmem e he)
  · rintro a x ⟨c, hca, h4, h6⟩
    obtain ⟨l, hr⟩ := h.coherent a x ⟨c, hca, h4, h6⟩
    have ha : findMap4 g a ≠ some (.host d) := by
      intro hf
      have hmem := h.maps.mem4 hf
      have hdm := h.maps.host4 d hmem.1
      have : a = g.v4 d := ((h.maps.list4.wf _ hmem.1).covers_host (by
        rw [Gcfg.map4, (h.maps.host_ok d hd).map4])).1 hmem.2
      exact hne hdm c hca (h4.trans this)
    refine ⟨l, resolve4_eq_ok.2 ((resolve4_eq_ok.1 hr).transfer rfl rfl rfl (findMap4_moveToDormant ha) (fun _ _ => rfl)
      (fun i y hy => ?_) (fun _ _ => rfl))⟩
    rw [findMap6_moveToDormant (by rw [hy]; simp), hy]
  · refine ⟨?_, ?_, ?_⟩
    · intro e he
      exact h.link.link e ((mem_mapped_moveToDormant hp).1 he).1
    · intro e he
      exact h.link.flag e ((mem_mapped_moveToDormant hp).1 he).1
    · intro e he
      rcases (mem_dormant_moveToDormant hp).1 he with rfl | he
      · exact hc
      · exact h.link.dormant e he

end Dormant

/-! ### Expiry -/

theorem prevRun_eq_some {f r : FreeRef} {l : List FreeRef} (h : prevRun f l = some r) :
    ∃ k k', l = k ++ r :: f :: k' := by
  induction l with
  | nil => cases h
  | cons a l ih =>
    cases l with
    | nil => cases h
    | cons b l =>
      unfold prevRun at h
      split at h
      · rename_i hb
        cases h
        exact ⟨[], l, by rw [hb]; rfl⟩
      · obtain ⟨k, k', e⟩ := ih h
        exact ⟨a :: k, k', by rw [e]; rfl⟩

section Expire

variable {d : Nat} {f : FreeRef} {k k' : List FreeRef}

/-- The state after the dormant lease `d` was freed, whose run follows the run `f`. -/
def joined (g : Gcfg) (p : DynamicPool) (d : Nat) (f : FreeRef) : Gcfg :=
  let v := g.freeAddr f
  { g with dynamicPool := some { p with
      freeList := p.freeList.filter (· ≠ FreeRef.host d)
      dormantList := p.dormantList.filter (· ≠ d) } }.setFree f
    ⟨v.addr, (v.count + ((g.hosts d).free.count + 1)) % 2 ^ 32⟩

theorem expireLease_eq (h : prevRun (.host d) p.freeList = some f) : expireLease g p d = joined g p d f := by
  unfold expireLease
  rw [h]
  rfl

theorem dynamicPool_joined : ∃ v, (joined g p d f).dynamicPool = some { p with
    freeList := p.freeList.filter (· ≠ FreeRef.host d)
    dormantList := p.dormantList.filter (· ≠ d)
    freeHead := v } := by
  unfold joined
  exact dynamicPool_setFree (g := { g with dynamicPool := some { p with
      freeList := p.freeList.filter (· ≠ FreeRef.host d)
      dormantList := p.dormantList.filter (· ≠ d) } }) rfl f _

theorem hosts_joined (e : Nat) : ((joined g p d f).hosts e).map4 = (g.hosts e).map4 ∧
    ((joined g p d f).hosts e).map6 = (g.hosts e).map6 ∧
    ((joined g p d f).hosts e).cacheEntry = (g.hosts e).cacheEntry := by
  unfold joined
  obtain ⟨h4, h6, hc, -⟩ := hosts_setFree (g := { g with dynamicPool := some { p with
      freeList := p.freeList.filter (· ≠ FreeRef.host d)
      dormantList := p.dormantList.filter (· ≠ d) } }) f
    ⟨(g.freeAddr f).addr, ((g.freeAddr f).count + ((g.hosts d).free.count + 1)) % 2 ^ 32⟩ e
  exact ⟨h4, h6, hc⟩

theorem sameMapped_joined (hp : g.dynamicPool = some p) : SameMapped g (joined g p d f) := by
  obtain ⟨v, hv⟩ := dynamicPool_joined (g := g) (p := p) (d := d) (f := f)
  constructor
  case host4 => exact fun e _ => (hosts_joined e).1
  case host6 => exact fun e _ => (hosts_joined e).2.1
  case cacheEntry => exact fun e _ => (hosts_joined e).2.2
  case pool => simp only [Gcfg.map4, hv, hp]
  case isSome => rw [hv, hp]; rfl
  case mapped => rw [mapped_of_pool hv, mapped_of_pool hp]
  all_goals cases f <;> simp only [joined, Gcfg.setFree, Gcfg.setHost]

private theorem nHosts_joined : (joined g p d f).nHosts = g.nHosts := by
  cases f <;> simp only [joined, Gcfg.setFree, Gcfg.setHost]

private theorem freeAddr_joined (hp : g.dynamicPool = some p) (r : FreeRef) : (joined g p d f).freeAddr r =
    if r = f then ⟨(g.freeAddr f).addr, ((g.freeAddr f).count + ((g.hosts d).free.count + 1)) % 2 ^ 32⟩
    else g.freeAddr r := by
  unfold joined
  simp only []
  rw [freeAddr_setFree rfl]
  split
  · rfl
  · cases r with
    | head => simp only [Gcfg.freeAddr, hp]
    | host e => rfl

private theorem filter_run (h : p.freeList.Nodup) (e : p.freeList = k ++ f :: .host d :: k') :
    p.freeList.filter (· ≠ FreeRef.host d) = k ++ f :: k' ∧ f ∉ k ∧ f ∉ k' ∧ f ≠ .host d := by
  rw [e] at h
  have hn := List.nodup_append.1 h
  have hfk : f ∉ k := fun hm => hn.2.2 f hm f List.mem_cons_self rfl
  have hdk : FreeRef.host d ∉ k := fun hm => hn.2.2 _ hm _ (by simp) rfl
  have hn2 := List.nodup_cons.1 hn.2.1
  have hn3 := List.nodup_cons.1 hn2.2
  have hfd : f ≠ .host d := fun he => hn2.1 (by rw [he]; exact List.mem_cons_self)
  refine ⟨?_, hfk, fun hm => hn2.1 (List.mem_cons_of_mem _ hm), hfd⟩
  have hkeep : ∀ l : List FreeRef, FreeRef.host d ∉ l → l.filter (· ≠ FreeRef.host d) = l := by
    intro l hl
    rw [List.filter_eq_self]
    intro r hr
    rw [decide_eq_true_eq]
    rintro rfl
    exact hl hr
  rw [e, List.filter_append, hkeep k hdk, List.filter_cons_of_pos (by simpa using hfd),
    List.filter_cons_of_neg (by simp), hkeep k' hn3.1]

private theorem chain_joined (h : RunsInv g p) (hp : g.dynamicPool = some p)
    (e : p.freeList = k ++ f :: .host d :: k') :
    Chain (p.map4.addr.toNat + 2 ^ (32 - p.map4.prefixLen)) p.map4.addr.toNat
      ((p.freeList.filter (· ≠ FreeRef.host d)).map (joined g p d f).run) := by
  obtain ⟨hfil, hfk, hfk', hfd⟩ := filter_run h.nodup e
  have hrun : ∀ l : List FreeRef, f ∉ l → l.map (joined g p d f).run = l.map g.run := by
    intro l hl
    refine List.map_congr_left fun r hr => ?_
    have hrf : r ≠ f := fun he => hl (he ▸ hr)
    simp only [Gcfg.run, freeAddr_joined hp, if_neg hrf]
  have hchain := h.chain
  rw [e, List.map_append, List.map_cons, List.map_cons] at hchain
  have hmerge := hchain.merge
  have hle := (hmerge.bounds _ (List.mem_append_right _ List.mem_cons_self)).2
  have hstop := h.stop_le
  simp only at hle
  rw [hfil, List.map_append, List.map_cons, hrun k hfk, hrun k' hfk']
  have hf : (joined g p d f).run f =
      ((g.freeAddr f).addr, (g.freeAddr f).count + ((g.freeAddr (.host d)).count + 1)) := by
    simp only [Gcfg.run, freeAddr_joined hp, if_true]
    rw [Nat.mod_eq_of_lt (by simp only [Gcfg.freeAddr] at hle ⊢; omega)]
    rfl
  rw [hf]
  exact hmerge

/-- Giving a run back keeps the runs of the pool in order. -/
private theorem runsInv_joined (hpool : RunsInv g p) (hp : g.dynamicPool = some p) (hd : d ∈ p.dormantList)
    (e : p.freeList = k ++ f :: .host d :: k') (v : FreeAddr) : RunsInv (joined g p d f) { p with
      freeList := p.freeList.filter (· ≠ FreeRef.host d)
      dormantList := p.dormantList.filter (· ≠ d)
      freeHead := v } := by
  obtain ⟨hfil, hfk, hfk', hfd⟩ := filter_run hpool.nodup e
  have hdm : d ∉ p.mappedList := fun hm => hpool.not_dormant hm hd
  have hmem : ∀ c, c ∈ p.mappedList ∨ c ∈ p.dormantList.filter (· ≠ d) →
      (c ∈ p.mappedList ∨ c ∈ p.dormantList) ∧ c ≠ d := by
    intro c hc
    rcases hc with hc | hc
    · exact ⟨Or.inl hc, fun he => hdm (he ▸ hc)⟩
    · rw [List.mem_filter, decide_eq_true_eq] at hc
      exact ⟨Or.inr hc.1, hc.2⟩
  have hv4 : ∀ c, (joined g p d f).v4 c = g.v4 c := fun c => congrArg Map4.addr (hosts_joined c).1
  refine ⟨hpool.stop_le, chain_joined hpool hp e, ?_, hpool.nodup.filter _, ?_, ?_, ?_, ?_⟩
  · have := hpool.head
    simp only [hfil]
    rw [e] at this
    cases k with
    | nil => exact this
    | cons r k => exact this
  · intro c
    simp only [List.mem_filter, decide_eq_true_eq, hpool.hosts, ne_eq, FreeRef.host.injEq]
    constructor
    · rintro ⟨hc | hc, hne⟩
      · exact Or.inl hc
      · exact Or.inr ⟨hc, hne⟩
    · rintro (hc | hc)
      · exact ⟨Or.inl hc, fun he => hdm (he ▸ hc)⟩
      · exact ⟨Or.inr hc.1, hc.2⟩
  · exact hpool.nodup_leases.sublist (List.Sublist.append (List.Sublist.refl _) List.filter_sublist)
  · intro c hc
    rw [nHosts_joined]
    exact hpool.lease_lt c (hmem c hc).1
  · intro c hc
    have hfree : ((joined g p d f).hosts c).free = (joined g p d f).freeAddr (.host c) := rfl
    rw [hfree, freeAddr_joined hp, hv4, ← hpool.addr c (hmem c hc).1]
    split
    · rename_i hcf
      rw [← hcf]
      rfl
    · rfl

private theorem poolInv_joined (hpool : PoolInv g p) (hp : g.dynamicPool = some p) (hd : d ∈ p.dormantList)
    (e : p.freeList = k ++ f :: .host d :: k') (v : FreeAddr) : PoolInv (joined g p d f) { p with
      freeList := p.freeList.filter (· ≠ FreeRef.host d)
      dormantList := p.dormantList.filter (· ≠ d)
      freeHead := v } := by
  have hmem : ∀ c, c ∈ p.mappedList ∨ c ∈ p.dormantList.filter (· ≠ d) → c ∈ p.mappedList ∨ c ∈ p.dormantList :=
    fun c hc => hc.imp_right fun hc => (List.mem_filter.1 hc).1
  have hv4 : ∀ c, (joined g p d f).v4 c = g.v4 c := fun c => congrArg Map4.addr (hosts_joined c).1
  have hv6 : ∀ c, (joined g p d f).v6 c = g.v6 c := fun c => congrArg Map6.addr (hosts_joined c).2.1
  refine ⟨runsInv_joined hpool.toRunsInv hp hd e v, ?_, ?_⟩
  · intro c c' hc hc' hcc
    rw [hv6, hv6] at hcc
    exact hpool.v6_inj c c' (hmem c hc) (hmem c' hc') hcc
  · intro c hc
    rw [hv4, (sameMapped_joined (d := d) (f := f) hp).localAddr4]
    exact hpool.not_own c (hmem c hc)

/-- Freeing a dormant lease keeps the base invariant. -/
theorem Base.expireLease (h : Base g) (hp : g.dynamicPool = some p) (hd : d ∈ p.dormantList) :
    Base (expireLease g p d) := by
  cases hr : prevRun (.host d) p.freeList with
  | none =>
    unfold Tayga.expireLease
    rw [hr]
    exact h
  | some f =>
    obtain ⟨k, k', e⟩ := prevRun_eq_some hr
    rw [expireLease_eq hr]
    obtain ⟨v, hv⟩ := dynamicPool_joined (g := g) (p := p) (d := d) (f := f)
    refine (sameMapped_joined hp).base h ?_ ?_
    · intro p' hp'
      rw [hv] at hp'
      cases hp'
      exact runsInv_joined (h.runs p hp) hp hd e v
    · intro c hc
      have hc' : c ∈ g.dormant := by
        rw [dormant_of_pool hv, List.mem_filter] at hc
        rw [dormant_of_pool hp]
        exact hc.1
      obtain ⟨h4, h6, -⟩ := hosts_joined (g := g) (p := p) (d := d) (f := f) c
      have hok := h.tables.host_ok c (Or.inr hc')
      unfold Gcfg.v6
      rw [h6]
      exact ⟨⟨by rw [h4]; exact hok.map4, by rw [h6]; exact hok.map6⟩, h.valid c (Or.inr hc')⟩

/-- Freeing a dormant lease keeps the invariant. -/
theorem Inv.expireLease (h : Inv g) (hp : g.dynamicPool = some p) (hd : d ∈ p.dormantList) :
    Inv (expireLease g p d) := by
  cases hr : prevRun (.host d) p.freeList with
  | none =>
    unfold Tayga.expireLease
    rw [hr]
    exact h
  | some f =>
    obtain ⟨k, k', e⟩ := prevRun_eq_some hr
    rw [expireLease_eq hr]
    obtain ⟨v, hv⟩ := dynamicPool_joined (g := g) (p := p) (d := d) (f := f)
    refine (sameMapped_joined hp).inv h ?_ ?_
    · intro p' hp'
      rw [hv] at hp'
      cases hp'
      exact poolInv_joined (h.pool p hp) hp hd e v
    · intro c hc
      have hc' : c ∈ g.dormant := by
        rw [dormant_of_pool hv, List.mem_filter] at hc
        rw [dormant_of_pool hp]
        exact hc.1
      obtain ⟨h4, h6, hce⟩ := hosts_joined (g := g) (p := p) (d := d) (f := f) c
      have hok := h.maps.host_ok c (Or.inr hc')
      unfold Gcfg.v6
      rw [h6, hce]
      exact ⟨⟨by rw [h4]; exact hok.map4, by rw [h6]; exact hok.map6⟩, h.valid c (Or.inr hc'), h.link.dormant c hc'⟩

end Expire

/-! ### `dynamic_maint` -/

theorem mem_mapped_of_moveToDormant {d e : Nat} (he : e ∈ g.mapped) (hne : e ≠ d) : e ∈ (moveToDormant g d).mapped := by
  cases hp : g.dynamicPool with
  | none => simp [Gcfg.mapped, hp] at he
  | some p => exact (mem_mapped_moveToDormant hp).2 ⟨he, hne⟩

/-- What moving one idle lease keeps the first loop keeps: each lease is still in use when its turn comes. -/
theorem idleLeases_induct {P : Gcfg → Prop}
    (hidle : ∀ s d, P s → d ∈ s.mapped → (s.hosts d).cacheEntry = none →
      (s.hosts d).lastUse + s.dynMinLease < s.now → P (moveToDormant s d))
    (hp : g.dynamicPool = some p) (hnd : p.mappedList.Nodup) (h : P g) : P (idleLeases g p) := by
  unfold Tayga.idleLeases
  have hmem : ∀ d ∈ p.mappedList, d ∈ g.mapped := fun d hd => by rwa [mapped_of_pool hp]
  clear hp
  generalize p.mappedList = l at hmem hnd
  induction l generalizing g with
  | nil => exact h
  | cons d l ih =>
    rw [List.nodup_cons] at hnd
    rw [List.foldl_cons]
    split
    · rename_i hc
      refine ih (hidle g d h (hmem d List.mem_cons_self) hc.1 hc.2) (fun e he => ?_) hnd.2
      refine mem_mapped_of_moveToDormant (hmem e (List.mem_cons_of_mem d he)) ?_
      rintro rfl
      exact hnd.1 he
    · exact ih h (fun e he => hmem e (List.mem_cons_of_mem d he)) hnd.2

/-- What the end of one lease keeps the second loop keeps. -/
theorem expireLeases_induct {P : Gcfg → Prop}
    (hexpire : ∀ s p d, P s → s.dynamicPool = some p → d ∈ p.dormantList →
      (s.hosts d).lastUse + s.dynMaxLease < s.now → P (expireLease s p d)) (h : P g)
    (fuel : Nat) : P (expireLeases fuel g) := by
  induction fuel generalizing g with
  | zero => exact h
  | succ fuel ih =>
    unfold Tayga.expireLeases
    split
    · exact h
    · rename_i p hp
      split
      · exact h
      · rename_i d hd
        split
        · exact h
        · rename_i hlate
          exact ih (hexpire g p d h hp (List.mem_of_getLast? hd) (Int.not_le.1 hlate))

/-- What moving an idle lease, ending a lease and noting a write keep `dynamic_maint` keeps. -/
theorem dynamicMaint_induct {P : Gcfg → Prop}
    (hidle : ∀ s d, P s → d ∈ s.mapped → (s.hosts d).cacheEntry = none →
      (s.hosts d).lastUse + s.dynMinLease < s.now → P (moveToDormant s d))
    (hexpire : ∀ s p d, P s → s.dynamicPool = some p → d ∈ p.dormantList →
      (s.hosts d).lastUse + s.dynMaxLease < s.now → P (expireLease s p d))
    (hwrite : ∀ s b, P s → P { s with mapWritePending := b })
    (hnd : ∀ p, g.dynamicPool = some p → p.mappedList.Nodup) (h : P g) (shutdown : Bool) :
    P (dynamicMaint g shutdown).1 := by
  unfold Tayga.dynamicMaint
  split
  · exact h
  · rename_i p hp
    have h' := expireLeases_induct hexpire (idleLeases_induct hidle hp (hnd p hp) h)
      (p.mappedList.length + p.dormantList.length)
    simp only []
    split
    · exact h'
    · split
      · split
        · exact hwrite _ true h'
        · exact hwrite _ false h'
      · exact h'

theorem RunsInv.nodup_mapped (h : RunsInv g p) : p.mappedList.Nodup := (List.nodup_append.1 h.nodup_leases).1

/-- `dynamic_maint` keeps the invariant. -/
theorem Inv.dynamicMaint (h : Inv g) (shutdown : Bool) : Inv (dynamicMaint g shutdown).1 :=
  dynamicMaint_induct (P := Inv) (fun _ _ h hd hc _ => h.moveToDormant (Or.inl hd) hc)
    (fun _ _ _ h hp hd _ => h.expireLease hp hd) (fun _ b h => h.writePending b)
    (fun p hp => (h.pool p hp).nodup_mapped) h shutdown

theorem Base.dynamicMaint (h : Base g) (shutdown : Bool) : Base (dynamicMaint g shutdown).1 :=
  dynamicMaint_induct (P := Base) (fun _ _ h hd _ _ => h.moveToDormant (Or.inl hd))
    (fun _ _ _ h hp hd _ => h.expireLease hp hd) (fun _ b h => h.writePending b)
    (fun p hp => (h.runs p hp).nodup_mapped) h shutdown

theorem Base.dynamicMaintDone (h : Base g) (observedTime : Int) (failed : Bool) :
    Base (dynamicMaintDone g observedTime failed) := by
  unfold Tayga.dynamicMaintDone
  split
  · exact h.writePending true
  · exact h.bookkeeping (by constructor <;> intros <;> rfl) rfl rfl rfl

theorem Inv.dynamicMaintDone (h : Inv g) (observedTime : Int) (failed : Bool) :
    Inv (dynamicMaintDone g observedTime failed) := by
  unfold Tayga.dynamicMaintDone
  split
  · exact h.writePending true
  · exact h.bookkeeping (by constructor <;> intros <;> rfl) rfl rfl rfl

/-! ### Releasing cache entries -/

section Release

variable {c : Nat}

/-- `report_ageout` touches at most the lease that answers for the address of the entry. -/
theorem reportAgeout_cases (g : Gcfg) (c : Nat) : reportAgeout g c = g ∨
    ∃ d, findMap4 g (g.entries c).addr4 = some (.host d) ∧ (g.hosts d).cacheEntry = some c ∧
      reportAgeout g c = g.setHost d { g.hosts d with lastUse := (g.entries c).lastUse, cacheEntry := none } := by
  unfold reportAgeout
  split
  · rename_i d hf
    simp only []
    split
    · rename_i hc
      exact Or.inr ⟨d, hf, hc, rfl⟩
    · exact Or.inl rfl
  · exact Or.inl rfl

/-- The state before the entry is unlinked: it has been reported if it is flagged. -/
def reported (g : Gcfg) (c : Nat) : Gcfg := if (g.entries c).repAgeout then reportAgeout g c else g

theorem reported_cases (g : Gcfg) (c : Nat) : reported g c = g ∨
    ∃ d, findMap4 g (g.entries c).addr4 = some (.host d) ∧ (g.hosts d).cacheEntry = some c ∧
      reported g c = g.setHost d { g.hosts d with lastUse := (g.entries c).lastUse, cacheEntry := none } := by
  unfold reported
  split
  · exact reportAgeout_cases g c
  · exact Or.inl rfl

private theorem sameMaps_reported (g : Gcfg) (c : Nat) : SameMaps g (reported g c) := by
  rcases reported_cases g c with e | ⟨d, -, -, e⟩ <;> rw [e]
  · exact SameMaps.refl g
  · exact SameMaps.setHost g d _ rfl rfl rfl

theorem samePairs_reported (g : Gcfg) (c : Nat) : SamePairs g (reported g c) := by
  rcases reported_cases g c with e | ⟨d, -, -, e⟩ <;> rw [e]
  · exact ⟨rfl, rfl, rfl, rfl, fun _ => rfl, fun _ => rfl⟩
  · exact samePairs_setHost d _

private theorem entries_reported (g : Gcfg) (c : Nat) : (reported g c).entries = g.entries := by
  rcases reported_cases g c with e | ⟨d, -, -, e⟩ <;> rw [e]
  rfl

theorem releaseEntry_eq (g : Gcfg) (c : Nat) : releaseEntry g c =
    delFromHashTable { reported g c with
      cacheActive := (reported g c).cacheActive.filter (· ≠ c)
      cachePool := c :: (reported g c).cachePool } c := rfl

theorem sameMaps_releaseEntry (g : Gcfg) (c : Nat) : SameMaps g (releaseEntry g c) := by
  refine (sameMaps_reported g c).trans ?_
  rw [releaseEntry_eq]
  constructor <;> intros <;> rfl

theorem cacheActive_releaseEntry (g : Gcfg) (c : Nat) :
    (releaseEntry g c).cacheActive = g.cacheActive.filter (· ≠ c) := by
  rw [releaseEntry_eq, ← (samePairs_reported g c).cacheActive]
  rfl

theorem entries_releaseEntry (g : Gcfg) (c : Nat) : (releaseEntry g c).entries = g.entries := by
  rw [releaseEntry_eq, ← entries_reported g c]
  rfl

theorem mem_active_releaseEntry {b : Nat} : b ∈ (releaseEntry g c).cacheActive ↔ b ∈ g.cacheActive ∧ b ≠ c := by
  rw [cacheActive_releaseEntry, List.mem_filter, decide_eq_true_eq]

theorem cacheInv_releaseEntry (h : CacheInv g) (hc : c ∈ g.cacheActive) : CacheInv (releaseEntry g c) where
  size h0 := by
    rw [(sameMaps_releaseEntry g c).cacheSize] at h0
    have := (h.size h0).2
    rw [this] at hc
    cases hc
  nodup := by
    have hp : (releaseEntry g c).cachePool = c :: g.cachePool := by
      rw [releaseEntry_eq, ← (samePairs_reported g c).cachePool]
      rfl
    have hn := List.nodup_append.1 h.nodup
    rw [hp, cacheActive_releaseEntry, List.cons_append, List.nodup_cons]
    refine ⟨?_, h.nodup.sublist (List.Sublist.append (List.Sublist.refl _) List.filter_sublist)⟩
    rw [List.mem_append]
    rintro (hm | hm)
    · exact hn.2.2 c hm c hc rfl
    · simp at hm
  hash4 b e := by
    have ht : (releaseEntry g c).hashTable4 = fun b => (g.hashTable4 b).filter (· ≠ c) := by
      rw [releaseEntry_eq, ← (samePairs_reported g c).hashTable4]
      rfl
    rw [ht, mem_active_releaseEntry, entries_releaseEntry, (sameMaps_releaseEntry g c).hashIp4]
    simp only [List.mem_filter, decide_eq_true_eq, h.hash4]
    tauto
  hash6 b e := by
    have ht : (releaseEntry g c).hashTable6 = fun b => (g.hashTable6 b).filter (· ≠ c) := by
      rw [releaseEntry_eq, ← (samePairs_reported g c).hashTable6]
      rfl
    rw [ht, mem_active_releaseEntry, entries_releaseEntry, (sameMaps_releaseEntry g c).hashIp6]
    simp only [List.mem_filter, decide_eq_true_eq, h.hash6]
    tauto
  unique e he e' he' := by
    rw [entries_releaseEntry]
    exact h.unique e (mem_active_releaseEntry.1 he).1 e' (mem_active_releaseEntry.1 he').1

theorem cached_releaseEntry {a : In4} {x : In6} (h : Cached (releaseEntry g c) a x) : Cached g a x := by
  obtain ⟨e, he, h4, h6⟩ := h
  rw [entries_releaseEntry] at h4 h6
  exact ⟨e, (mem_active_releaseEntry.1 he).1, h4, h6⟩

/-- The lease of the released pair forgets its entry; every other lease keeps its own. -/
private theorem cacheEntry_releaseEntry (h : Wf g) (hc : c ∈ g.cacheActive) {d : Nat} (hd : d ∈ g.mapped) :
    ((releaseEntry g c).hosts d).cacheEntry =
      if (g.entries c).addr4 = g.v4 d then none else (g.hosts d).cacheEntry := by
  have hh : (releaseEntry g c).hosts = (reported g c).hosts := rfl
  rw [hh]
  split
  · rename_i h4
    have hce := (h.link.link d hd c).2 ⟨hc, h4⟩
    have hf : findMap4 g (g.entries c).addr4 = some (.host d) := by
      rw [h4]
      exact h.maps.find4_lease hd
    unfold reported
    rw [if_pos (h.link.flag d hd c hce)]
    unfold reportAgeout
    rw [hf]
    simp [hce, Gcfg.setHost]
  · rename_i h4
    rcases reported_cases g c with e | ⟨i, hf, hi, e⟩ <;> rw [e]
    have hid : d ≠ i := by
      rintro rfl
      exact h4 ((h.link.link d hd c).1 hi).2
    simp [Gcfg.setHost, Function.update_of_ne hid]

private theorem cacheEntry_releaseEntry_of_dormant (h : Wf g) {d : Nat} (hd : d ∈ g.dormant) :
    ((releaseEntry g c).hosts d).cacheEntry = none := by
  have hh : (releaseEntry g c).hosts = (reported g c).hosts := rfl
  rw [hh]
  rcases reported_cases g c with e | ⟨i, hf, hi, e⟩ <;> rw [e]
  · exact h.link.dormant d hd
  · have hid : d ≠ i := by
      rintro rfl
      exact h.not_dormant (h.maps.host4 d (h.maps.mem4 hf).1) hd
    simp only [Gcfg.setHost, Function.update_of_ne hid]
    exact h.link.dormant d hd

/-- Releasing a cache entry keeps everything well formed. -/
theorem Wf.releaseEntry (h : Wf g) (hc : c ∈ g.cacheActive) : Wf (releaseEntry g c) where
  maps := (sameMaps_releaseEntry g c).mapsInv h.maps
  pool p hp := (sameMaps_releaseEntry g c).poolInv (h.pool p ((sameMaps_releaseEntry g c).dynamicPool ▸ hp))
  valid := (sameMaps_releaseEntry g c).leasesValid h.valid
  cache := cacheInv_releaseEntry h.cache hc
  link := by
    have hm := sameMaps_releaseEntry g c
    refine ⟨?_, ?_, ?_⟩
    · intro d hd e
      rw [hm.mapped] at hd
      rw [cacheEntry_releaseEntry h hc hd, mem_active_releaseEntry, entries_releaseEntry, hm.v4]
      split
      · rename_i h4
        constructor
        · intro hn
          cases hn
        · rintro ⟨⟨he, hne⟩, he4⟩
          have h1 := (h.link.link d hd e).2 ⟨he, he4⟩
          rw [(h.link.link d hd c).2 ⟨hc, h4⟩] at h1
          exact absurd (Option.some.inj h1).symm hne
      · rename_i h4
        rw [h.link.link d hd e]
        constructor
        · rintro ⟨he, he4⟩
          exact ⟨⟨he, fun hec => h4 (hec ▸ he4)⟩, he4⟩
        · rintro ⟨⟨he, -⟩, he4⟩
          exact ⟨he, he4⟩
    · intro d hd e
      rw [hm.mapped] at hd
      rw [cacheEntry_releaseEntry h hc hd, entries_releaseEntry]
      split
      · intro hn
        cases hn
      · exact h.link.flag d hd e
    · intro d hd
      rw [hm.dormant] at hd
      exact cacheEntry_releaseEntry_of_dormant h hd

/-- Releasing a cache entry keeps the invariant. -/
theorem Base.releaseEntry (h : Base g) (hc : c ∈ g.cacheActive) : Base (releaseEntry g c) where
  tables := (sameMaps_releaseEntry g c).tablesInv h.tables
  runs p hp := (sameMaps_releaseEntry g c).runsInv (h.runs p ((sameMaps_releaseEntry g c).dynamicPool ▸ hp))
  valid := (sameMaps_releaseEntry g c).leasesValid h.valid
  cache := cacheInv_releaseEntry h.cache hc

theorem Inv.releaseEntry (h : Inv g) (hc : c ∈ g.cacheActive) : Inv (releaseEntry g c) :=
  (h.wf.releaseEntry hc).inv fun a x hca => by
    rw [(sameMaps_releaseEntry g c).resolve4]
    exact h.coherent a x (cached_releaseEntry hca)

end Release

/-- What releasing one active entry keeps a pass over distinct active entries keeps: each is still active when its turn
comes. -/
private theorem releasePass_induct {P : Gcfg → Prop} (hrel : ∀ s c, P s → c ∈ s.cacheActive → P (releaseEntry s c))
    (q : Gcfg → Nat → Prop) [∀ s c, Decidable (q s c)] {l : List Nat} (hl : l.Nodup)
    (hmem : ∀ c ∈ l, c ∈ g.cacheActive) (h : P g) :
    P (l.foldl (fun s c => if q s c then Tayga.releaseEntry s c else s) g) := by
  induction l generalizing g with
  | nil => exact h
  | cons c l ih =>
    rw [List.nodup_cons] at hl
    rw [List.foldl_cons]
    split
    · refine ih hl.2 (fun e he => ?_) (hrel g c h (hmem c List.mem_cons_self))
      refine mem_active_releaseEntry.2 ⟨hmem e (List.mem_cons_of_mem c he), ?_⟩
      rintro rfl
      exact hl.1 he
    · exact ih hl.2 (fun e he => hmem e (List.mem_cons_of_mem c he)) h

theorem CacheInv.nodup_active (h : CacheInv g) : g.cacheActive.Nodup := (List.nodup_append.1 h.nodup).2.1

theorem addrmapMaint_induct {P : Gcfg → Prop} (hrel : ∀ s c, P s → c ∈ s.cacheActive → P (releaseEntry s c))
    (hnd : g.cacheActive.Nodup) (h : P g) : P (addrmapMaint g) :=
  releasePass_induct hrel (fun s c => (s.entries c).lastUse + cacheMaxAge < s.now) hnd (fun _ hc => hc) h

/-- `addrmap_maint` keeps the invariant. -/
theorem Inv.addrmapMaint (h : Inv g) : Inv (addrmapMaint g) :=
  addrmapMaint_induct (fun _ _ h hc => h.releaseEntry hc) h.cache.nodup_active h

theorem Base.addrmapMaint (h : Base g) : Base (addrmapMaint g) :=
  addrmapMaint_induct (fun _ _ h hc => h.releaseEntry hc) h.cache.nodup_active h

/-- The flush leaves no active entry. -/
theorem cacheActive_flushCache (g : Gcfg) : (flushCache g).cacheActive = [] := by
  have key : ∀ (l : List Nat) (s : Gcfg), (l.foldl releaseEntry s).cacheActive = s.cacheActive.filter (· ∉ l) := by
    intro l
    induction l with
    | nil => exact fun s => (List.filter_eq_self.2 (by simp)).symm
    | cons c l ih =>
      intro s
      rw [List.foldl_cons, ih, cacheActive_releaseEntry, List.filter_filter]
      refine List.filter_congr fun e _ => ?_
      by_cases hec : e = c <;> simp [hec]
  rw [flushCache, key]
  simp

theorem flushCache_induct {P : Gcfg → Prop} (hrel : ∀ s c, P s → c ∈ s.cacheActive → P (releaseEntry s c))
    (hnd : g.cacheActive.Nodup) (h : P g) : P (flushCache g) := by
  have := releasePass_induct hrel (fun _ _ => True) hnd (fun _ hc => hc) h
  simp only [if_true] at this
  exact this

end Tayga
