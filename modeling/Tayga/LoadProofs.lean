import Tayga.DynamicFile
import Tayga.Maint

/-!
# Loading leases

`load_map` cuts a lease out of the free runs exactly when its line is admissible and no lease has its IPv4 address yet
(`loadMap_cases`), and whatever the file holds the base invariant is kept (`Base.loadDynamic`).
-/

namespace Tayga

open FreeRuns FirstMatch

variable {g : Gcfg} {p : DynamicPool} {libc : Libc}

/-! ### Addresses of the pool -/

theorem Base.wf_pool (h : Base g) (hp : g.dynamicPool = some p) : p.map4.Wf := by
  have := h.tables.list4.wf .pool (h.tables.pool4.2 (by rw [hp]; rfl))
  rwa [Gcfg.map4, hp] at this

/-- The addresses of the pool are an interval. -/
theorem Base.covers_pool (h : Base g) (hp : g.dynamicPool = some p) {a : In4} : p.map4.covers a = true ↔
    p.map4.addr.toNat ≤ a.toNat ∧ a.toNat < p.map4.addr.toNat + 2 ^ (32 - p.map4.prefixLen) := by
  have hw := h.wf_pool hp
  rw [hw.covers_iff, hw.normal.inNet_iff_toNat]

private theorem covers_of_findMap4_pool (hp : g.dynamicPool = some p) {a : In4} (h : findMap4 g a = some .pool) :
    p.map4.covers a = true := by
  have := @List.find?_some _ (fun n => (g.map4 n).covers a) _ _ h
  simpa only [Gcfg.map4, hp] using this

/-- The pool's own address starts its first run. -/
theorem RunsInv.head_addr (h : RunsInv g p) : (g.freeAddr .head).addr = p.map4.addr.toNat := by
  have hh := h.head
  have hc := h.chain
  cases hl : p.freeList with
  | nil =>
    rw [hl] at hh
    cases hh
  | cons r l =>
    rw [hl] at hh hc
    obtain rfl := Option.some.inj hh
    exact hc.1

/-- An address of the pool starts a run exactly when it is the pool's own or that of a lease. -/
theorem RunsInv.starts (h : RunsInv g p) {n : Nat} : (∃ r ∈ p.freeList, (g.freeAddr r).addr = n) ↔
    n = p.map4.addr.toNat ∨ ∃ d, (d ∈ p.mappedList ∨ d ∈ p.dormantList) ∧ (g.v4 d).toNat = n := by
  have hhead : FreeRef.head ∈ p.freeList := List.mem_of_head? h.head
  constructor
  · rintro ⟨r, hr, rfl⟩
    cases r with
    | head => exact Or.inl h.head_addr
    | host d =>
      have hd := (h.hosts d).1 hr
      exact Or.inr ⟨d, hd, (h.addr d hd).symm⟩
  · rintro (rfl | ⟨d, hd, rfl⟩)
    · exact ⟨.head, hhead, h.head_addr⟩
    · exact ⟨.host d, h.lease_mem hd, h.addr d hd⟩

/-- The search of `load_map` finds the run an address of the pool lies in. -/
private theorem RunsInv.find_run (h : RunsInv g p) {n : Nat} (hlow : p.map4.addr.toNat ≤ n)
    (hhigh : n < p.map4.addr.toNat + 2 ^ (32 - p.map4.prefixLen)) : ∃ f ∈ p.freeList,
    (p.freeList.find? fun f => n ≤ ((g.freeAddr f).addr + (g.freeAddr f).count) % 2 ^ 32) = some f ∧
    (g.freeAddr f).addr ≤ n ∧ n ≤ (g.freeAddr f).addr + (g.freeAddr f).count := by
  have hend : ∀ f ∈ p.freeList, ((g.freeAddr f).addr + (g.freeAddr f).count) % 2 ^ 32 =
      (g.freeAddr f).addr + (g.freeAddr f).count := by
    intro f hf
    have := h.run_le hf
    simp only [Gcfg.run] at this
    exact Nat.mod_eq_of_lt (by omega)
  obtain ⟨l₁, r, l₂, hl, hbefore, hin⟩ := h.chain.exists_run hlow hhigh
  obtain ⟨k₁, k₂, hk, rfl, hk₂⟩ := List.map_eq_append_iff.1 hl
  obtain ⟨f, k₃, rfl, rfl, rfl⟩ := List.map_eq_cons_iff.1 hk₂
  have hmem : f ∈ p.freeList := by rw [hk]; simp
  refine ⟨f, hmem, ?_, hin⟩
  rw [hk, List.find?_append, List.find?_eq_none.2, Option.none_or, List.find?_cons_of_pos]
  · rw [hend f hmem]
    exact decide_eq_true hin.2
  · intro s hs
    have hs' := hbefore (g.run s) (List.mem_map_of_mem hs)
    simp only [Gcfg.run] at hs'
    rw [hend s (by rw [hk]; exact List.mem_append_left _ hs), decide_eq_true_eq]
    omega

/-! ### One lease of the file -/

private theorem moveToDormant_withDormant (d : Nat) : moveToDormant (withDormant g d) d = moveToDormant g d := by
  unfold moveToDormant
  simp only [withDormant, delMap4, delMap6, Option.map_map]
  congr 1
  refine Option.map_congr fun p _ => ?_
  simp only [Function.comp_apply, DynamicPool.mk.injEq, true_and, and_true]
  rw [List.filter_cons_of_neg (by simp)]
  rfl

/-- A line that names an address of the pool that no static map answers for, and a host that none answers for. -/
structure Admissible (g : Gcfg) (p : DynamicPool) (r : DynamicSnapshot) : Prop where
  find4 : findMap4 g r.addr4 = some .pool
  valid : validateIp6Addr r.addr6 = none
  find6 : findMap6 g r.addr6 = none
  ne_base : r.addr4 ≠ p.map4.addr

/-- The lease of a line, cut out of the run `f` and not yet in its place among the dormant ones. -/
def offered (g : Gcfg) (p : DynamicPool) (r : DynamicSnapshot) (f : FreeRef) : Gcfg :=
  let s := fresh g p r.addr6 r.addr4.toNat f
  s.setHost g.nHosts { s.hosts g.nHosts with lastUse := r.lastUse }

/-- The state after `load_map` has accepted a line. -/
def stored (g : Gcfg) (p : DynamicPool) (r : DynamicSnapshot) (f : FreeRef) : Gcfg :=
  moveToDormant (offered g p r f) g.nHosts

/-- `load_map` stores the lease of an admissible line whose IPv4 address no lease has, and ignores every other line. -/
theorem loadMap_cases (h : Base g) (hp : g.dynamicPool = some p) (r : DynamicSnapshot) :
    (Admissible g p r ∧ (∀ d, d ∈ p.mappedList ∨ d ∈ p.dormantList → g.v4 d ≠ r.addr4) ∧ g.oom = false ∧
      ∃ f, FreeIn g p f r.addr4.toNat ∧ loadMap g r.addr6 r.addr4 r.lastUse = stored g p r f) ∨
    (¬ (Admissible g p r ∧ (∀ d, d ∈ p.mappedList ∨ d ∈ p.dormantList → g.v4 d ≠ r.addr4) ∧ g.oom = false) ∧
      loadMap g r.addr6 r.addr4 r.lastUse = g) := by
  have hruns := h.runs p hp
  unfold loadMap
  rw [hp]
  simp only []
  split
  · rename_i hnet
    refine Or.inr ⟨fun ha => hnet ?_, rfl⟩
    have := covers_of_findMap4_pool hp ha.1.find4
    rw [Map4.covers, decide_eq_true_iff, BitVec.and_comm] at this
    exact this
  rename_i hnet
  split
  · rename_i h4
    exact Or.inr ⟨fun ha => h4 ha.1.find4, rfl⟩
  rename_i h4
  split
  · rename_i hv
    refine Or.inr ⟨fun ha => ?_, rfl⟩
    rw [ha.1.valid] at hv
    cases hv
  rename_i hv
  split
  · rename_i h6
    refine Or.inr ⟨fun ha => ?_, rfl⟩
    rw [ha.1.find6] at h6
    cases h6
  rename_i h6
  rw [not_not] at h4
  rw [Bool.not_eq_true, Option.isSome_eq_false_iff, Option.isNone_iff_eq_none] at hv h6
  obtain ⟨hlow, hhigh⟩ := (h.covers_pool hp).1 (covers_of_findMap4_pool hp h4)
  obtain ⟨f, hmem, hfind, hin⟩ := hruns.find_run hlow hhigh
  rw [hfind]
  simp only []
  split
  · rename_i hle
    -- the address starts the run
    refine Or.inr ⟨fun ha => ?_, rfl⟩
    rcases hruns.starts.1 ⟨f, hmem, Nat.le_antisymm hin.1 hle⟩ with he | ⟨d, hd, he⟩
    · exact ha.1.ne_base (BitVec.eq_of_toNat_eq he)
    · exact ha.2.1 d hd (BitVec.eq_of_toNat_eq he)
  rename_i hlt
  rw [allocMapDynamic_eq]
  cases hoom : g.oom with
  | true =>
    refine Or.inr ⟨fun ha => ?_, rfl⟩
    cases ha.2.2
  | false =>
    have hofNat : BitVec.ofNat 32 r.addr4.toNat = r.addr4 := by simp
    have hstart : ∀ s ∈ p.freeList, (g.freeAddr s).addr ≠ r.addr4.toNat := by
      intro s hs he
      have := hruns.chain.start_not_free (List.mem_map_of_mem hmem) (List.mem_map_of_mem hs)
      simp only [Gcfg.run] at this
      omega
    refine Or.inl ⟨⟨h4, hv, h6, ?_⟩, ?_, rfl, f, ⟨hmem, by omega, hin.2, by rw [hofNat]; exact h4⟩, ?_⟩
    · intro he
      exact hstart .head (List.mem_of_head? hruns.head) (by rw [hruns.head_addr, he])
    · intro d hd he
      exact hstart (.host d) (hruns.lease_mem hd) (by
        rw [← he]
        exact hruns.addr d hd)
    · have e : offered g p r f = withDormant ((cut g p r.addr6 r.addr4 f).setHost g.nHosts
          { (cut g p r.addr6 r.addr4 f).hosts g.nHosts with lastUse := r.lastUse }) g.nHosts := by
        unfold offered fresh
        rw [hofNat]
        rfl
      rw [stored, e, moveToDormant_withDormant]
      rfl

/-! ### The state after a lease is stored -/

/-- The row of a lease. -/
def leaseRow (g : Gcfg) (d : Nat) : DynamicSnapshot := ⟨g.v4 d, g.v6 d, (g.hosts d).lastUse⟩

/-- Moving a dormant lease to its place changes nothing but the order of the dormant leases. -/
private theorem sameMapped_moveToDormant (h : Base g) {d : Nat} (hd : d ∈ g.dormant) :
    SameMapped g (moveToDormant g d) := by
  have hd4 : MapRef.host d ∉ g.map4List := fun hm => h.not_dormant (h.tables.host4 d hm) hd
  have hd6 : MapRef.host d ∉ g.map6List := fun hm => h.not_dormant (h.tables.host6 d hm) hd
  have hkeep : ∀ l : List MapRef, .host d ∉ l → l.filter (· ≠ .host d) = l := by
    intro l hl
    rw [List.filter_eq_self]
    intro m hm
    rw [decide_eq_true_eq]
    rintro rfl
    exact hl hm
  obtain ⟨p, hp⟩ := exists_pool (.inr hd)
  obtain ⟨l, -, hl⟩ := dynamicPool_moveToDormant (d := d) hp
  constructor
  case map4List => exact hkeep _ hd4
  case map6List => exact hkeep _ hd6
  case pool => simp only [Gcfg.map4, hl, hp]
  case isSome => rw [hl, hp]; rfl
  case mapped =>
    rw [mapped_of_pool hl, mapped_of_pool hp]
    refine List.filter_eq_self.2 fun e he => ?_
    rw [decide_eq_true_eq]
    rintro rfl
    exact h.not_dormant (by rwa [mapped_of_pool hp]) hd
  all_goals intros; rfl

/-- Noting the time of last use of a lease that is not in use. -/
private theorem sameMapped_setLastUse {d : Nat} (hd : d ∉ g.mapped) (t : Int) :
    SameMapped g (g.setHost d { g.hosts d with lastUse := t }) := by
  have hne : ∀ e ∈ g.mapped, (g.setHost d { g.hosts d with lastUse := t }).hosts e = g.hosts e := by
    intro e he
    refine Function.update_of_ne ?_ _ _
    rintro rfl
    exact hd he
  constructor <;> first | rfl | intro e he; rw [hne e he]

section Stored

variable {r : DynamicSnapshot} {f : FreeRef}

private theorem mem_dormant_fresh {x : In6} {a : Nat} : g.nHosts ∈ (fresh g p x a f).dormant := by
  obtain ⟨v, hv⟩ := dynamicPool_fresh (g := g) (p := p) (x := x) (a := a) (f := f)
  rw [dormant_of_pool hv]
  exact List.mem_cons_self

theorem Base.offered (h : Base g) (hp : g.dynamicPool = some p) (hf : FreeIn g p f r.addr4.toNat)
    (hv : validateIp6Addr r.addr6 = none) : Base (offered g p r f) := (h.fresh hp hf hv).setLastUse _ _

/-- Storing a lease keeps the base invariant. -/
theorem Base.stored (h : Base g) (hp : g.dynamicPool = some p) (hf : FreeIn g p f r.addr4.toNat)
    (hv : validateIp6Addr r.addr6 = none) : Base (stored g p r f) :=
  (h.offered hp hf hv).moveToDormant (Or.inr (mem_dormant_fresh (x := r.addr6) (a := r.addr4.toNat)))

/-- Storing a lease leaves the leases in use alone. -/
private theorem sameMapped_stored (h : Base g) (hp : g.dynamicPool = some p) (hf : FreeIn g p f r.addr4.toNat)
    (hv : validateIp6Addr r.addr6 = none) : SameMapped g (stored g p r f) := by
  have hb := h.fresh hp hf hv
  have hd := mem_dormant_fresh (g := g) (p := p) (f := f) (x := r.addr6) (a := r.addr4.toNat)
  refine ((sameMapped_fresh h hp).trans (sameMapped_setLastUse (fun hm => hb.not_dormant hm hd) r.lastUse)).trans ?_
  exact sameMapped_moveToDormant (h.offered hp hf hv) hd

/-- Storing a lease adds its row to those of the dormant leases. -/
private theorem dormantRows_stored (h : Base g) (hp : g.dynamicPool = some p) :
    ((stored g p r f).dormant.map (leaseRow (stored g p r f))).Perm (r :: g.dormant.map (leaseRow g)) := by
  obtain ⟨v, hv⟩ := dynamicPool_fresh (g := g) (p := p) (x := r.addr6) (a := r.addr4.toNat) (f := f)
  have hpool : (offered g p r f).dynamicPool = some { p with
      dormantList := g.nHosts :: p.dormantList
      freeList := p.freeList.flatMap fun r => if r = f then [r, .host g.nHosts] else [r]
      freeHead := v } := hv
  obtain ⟨l, hperm, hl⟩ := dynamicPool_moveToDormant (d := g.nHosts) hpool
  have hnot : ∀ d ∈ p.dormantList, d ≠ g.nHosts := fun d hd => Nat.ne_of_lt ((h.runs p hp).lease_lt d (Or.inr hd))
  have hfil : (g.nHosts :: p.dormantList).filter (· ≠ g.nHosts) = p.dormantList := by
    rw [List.filter_cons_of_neg (by simp)]
    exact List.filter_eq_self.2 fun d hd => decide_eq_true (hnot d hd)
  have hself : leaseRow (stored g p r f) g.nHosts = r := by
    have h4 := v4_fresh_self (g := g) (p := p) (x := r.addr6) (a := r.addr4.toNat) (f := f)
    have h6 := v6_fresh_self (g := g) (p := p) (x := r.addr6) (a := r.addr4.toNat) (f := f)
    rw [BitVec.ofNat_toNat, BitVec.setWidth_eq] at h4
    have hh : (stored g p r f).hosts g.nHosts =
        { (fresh g p r.addr6 r.addr4.toNat f).hosts g.nHosts with lastUse := r.lastUse } := Function.update_self _ _ _
    unfold leaseRow Gcfg.v4 Gcfg.v6
    unfold Gcfg.v4 at h4
    unfold Gcfg.v6 at h6
    rw [hh]
    simp only [h4, h6]
  have hother : ∀ d ∈ p.dormantList, leaseRow (stored g p r f) d = leaseRow g d := by
    intro d hd
    have hne := hnot d hd
    have hh : (stored g p r f).hosts d = (fresh g p r.addr6 r.addr4.toNat f).hosts d := Function.update_of_ne hne _ _
    have h4 := v4_fresh_of_ne (g := g) (p := p) (x := r.addr6) (a := r.addr4.toNat) (f := f) hne
    have h6 := v6_fresh_of_ne (g := g) (p := p) (x := r.addr6) (a := r.addr4.toNat) (f := f) hne
    have ht : ((fresh g p r.addr6 r.addr4.toNat f).hosts d).lastUse = (g.hosts d).lastUse :=
      (hosts_cut_of_ne hne _).2.2.2
    unfold leaseRow
    unfold Gcfg.v4 Gcfg.v6 at *
    rw [hh, h4, h6, ht]
  have hl' : (stored g p r f).dormant = l := dormant_of_pool hl
  rw [hl', dormant_of_pool hp]
  simp only [hfil] at hperm
  refine (hperm.map _).trans ?_
  rw [List.map_cons, hself, List.map_congr_left hother]

private theorem oom_stored : (stored g p r f).oom = g.oom := by
  cases f <;> simp only [stored, offered, moveToDormant, delMap4, delMap6, fresh, withDormant, cut, Gcfg.setFree,
    addLease, Gcfg.setHost]

private theorem dynMinLease_stored : (stored g p r f).dynMinLease = g.dynMinLease := by
  cases f <;> simp only [stored, offered, moveToDormant, delMap4, delMap6, fresh, withDormant, cut, Gcfg.setFree,
    addLease, Gcfg.setHost]

/-- Storing a lease for a host that has none keeps the invariant. -/
theorem Inv.stored (h : Inv g) (hp : g.dynamicPool = some p) (hf : FreeIn g p f r.addr4.toNat)
    (ha : Admissible g p r) (hn : ∀ e ∈ g.dormant, g.v6 e ≠ r.addr6) : Inv (stored g p r f) := by
  have hi := (h.fresh hp hf ha.valid ha.find6 hn).setLastUse g.nHosts r.lastUse
  have hd := mem_dormant_fresh (g := g) (p := p) (f := f) (x := r.addr6) (a := r.addr4.toNat)
  exact hi.moveToDormant (Or.inr hd) (hi.link.dormant _ hd)

end Stored

/-! ### All lines of the file -/

instance (g : Gcfg) (p : DynamicPool) (r : DynamicSnapshot) : Decidable (Admissible g p r) :=
  decidable_of_iff (findMap4 g r.addr4 = some .pool ∧ validateIp6Addr r.addr6 = none ∧ findMap6 g r.addr6 = none ∧
    r.addr4 ≠ p.map4.addr) ⟨fun h => ⟨h.1, h.2.1, h.2.2.1, h.2.2.2⟩, fun h => ⟨h.1, h.2, h.3, h.4⟩⟩

/-- The accepted lines after one more: an admissible line is accepted unless its IPv4 address was named before. -/
def admitRow (g : Gcfg) (p : DynamicPool) (seen : List DynamicSnapshot) (r : DynamicSnapshot) : List DynamicSnapshot :=
  if Admissible g p r ∧ ∀ s ∈ seen, s.addr4 ≠ r.addr4 then r :: seen else seen

/-- The lines of a file that are accepted, the last one first. -/
def accepted (g : Gcfg) (p : DynamicPool) (rows : List DynamicSnapshot) : List DynamicSnapshot :=
  rows.foldl (admitRow g p) []

/-- The state `s` is reached from `g`, which has no leases, by loading the rows `seen`. -/
structure Loading (g : Gcfg) (p : DynamicPool) (seen : List DynamicSnapshot) (s : Gcfg) : Prop where
  base : Base s
  same : SameMapped g s
  mapped : s.mapped = []
  rows : (s.dormant.map (leaseRow s)).Perm seen
  admissible : ∀ r ∈ seen, Admissible g p r
  oom : s.oom = false
  minLease : s.dynMinLease = g.dynMinLease
  inv : Inv g → (seen.map DynamicSnapshot.addr6).Nodup → Inv s

section Loading

variable {s : Gcfg} {seen : List DynamicSnapshot}

theorem SameMapped.pool_map4 (h : SameMapped g s) (hp : g.dynamicPool = some p) :
    ∃ q, s.dynamicPool = some q ∧ q.map4 = p.map4 := by
  have hs := h.isSome
  rw [hp] at hs
  obtain ⟨q, hq⟩ := Option.isSome_iff_exists.1 hs
  have hm := h.pool
  simp only [Gcfg.map4, hp, hq] at hm
  exact ⟨q, hq, hm⟩

theorem SameMapped.admissible (h : SameMapped g s) (hm : TablesInv g) {q : DynamicPool} (hq : q.map4 = p.map4)
    {r : DynamicSnapshot} : Admissible s q r ↔ Admissible g p r := by
  have h4 := h.findMap4 hm r.addr4
  have h6 := h.findMap6 hm r.addr6
  constructor
  · rintro ⟨ha, hb, hc, hd⟩
    exact ⟨h4 ▸ ha, hb, h6 ▸ hc, hq ▸ hd⟩
  · rintro ⟨ha, hb, hc, hd⟩
    exact ⟨h4.trans ha, hb, h6.trans hc, hq ▸ hd⟩

/-- One line more. -/
theorem Loading.step (h : Loading g p seen s) (hg : TablesInv g) (hp : g.dynamicPool = some p) (r : DynamicSnapshot) :
    Loading g p (admitRow g p seen r) (loadMap s r.addr6 r.addr4 r.lastUse) := by
  obtain ⟨q, hq, hmap⟩ := h.same.pool_map4 hp
  have hadm := h.same.admissible hg hmap (r := r)
  have haddr : (∀ d, d ∈ q.mappedList ∨ d ∈ q.dormantList → s.v4 d ≠ r.addr4) ↔ ∀ t ∈ seen, t.addr4 ≠ r.addr4 := by
    have hm := h.mapped
    rw [mapped_of_pool hq] at hm
    have hrows := fun t => h.rows.mem_iff (a := t)
    rw [dormant_of_pool hq] at hrows
    simp only [hm, List.not_mem_nil, false_or, ← hrows, List.mem_map, forall_exists_index, and_imp,
      forall_apply_eq_imp_iff₂]
    rfl
  unfold admitRow
  rcases loadMap_cases h.base hq r with ⟨ha, hno, -, f, hf, e⟩ | ⟨hno, e⟩ <;> rw [e]
  · rw [if_pos ⟨hadm.1 ha, haddr.1 hno⟩]
    have hrows := dormantRows_stored (f := f) (r := r) h.base hq
    refine ⟨h.base.stored hq hf ha.valid, h.same.trans (sameMapped_stored h.base hq hf ha.valid),
      (sameMapped_stored h.base hq hf ha.valid).mapped.trans h.mapped, hrows.trans (h.rows.cons r), ?_,
      oom_stored.trans h.oom, dynMinLease_stored.trans h.minLease, ?_⟩
    · intro t ht
      rcases List.mem_cons.1 ht with rfl | ht
      · exact hadm.1 ha
      · exact h.admissible t ht
    · intro hi hn
      rw [List.map_cons, List.nodup_cons] at hn
      refine (h.inv hi hn.2).stored hq hf ha fun d hd he => hn.1 ?_
      rw [← he]
      exact List.mem_map.2 ⟨leaseRow s d, h.rows.mem_iff.1 (List.mem_map_of_mem hd), rfl⟩
  · rw [if_neg fun ha => hno ⟨hadm.2 ha.1, haddr.2 ha.2, h.oom⟩]
    exact h

/-- After the last line the dormant leases are the accepted rows. -/
theorem loading_loadRows (h : Base g) (hp : g.dynamicPool = some p) (hm : g.mapped = []) (hd : g.dormant = [])
    (ho : g.oom = false) (rows : List DynamicSnapshot) : Loading g p (accepted g p rows) (loadRows g rows) := by
  have key : ∀ (rows seen : List DynamicSnapshot) (s : Gcfg), Loading g p seen s →
      Loading g p (rows.foldl (admitRow g p) seen) (loadRows s rows) := by
    intro rows
    induction rows with
    | nil => exact fun _ _ hs => hs
    | cons r rows ih => exact fun seen s hs => ih _ _ (hs.step h.tables hp r)
  refine key rows [] g ⟨h, ?_, hm, by rw [hd]; rfl, by simp, ho, rfl, fun hi _ => hi⟩
  constructor <;> intros <;> rfl

end Loading

/-- Without memory no line is accepted. -/
theorem loadRows_of_oom (ho : g.oom = true) (rows : List DynamicSnapshot) : loadRows g rows = g := by
  unfold loadRows
  induction rows with
  | nil => rfl
  | cons r rows ih =>
    have e : loadMap g r.addr6 r.addr4 r.lastUse = g := by
      unfold loadMap allocMapDynamic
      simp only [ho, if_true]
      repeat' split
      all_goals rfl
    rw [List.foldl_cons, e, ih]

/-- Loading lines keeps the base invariant, whatever leases there are. -/
theorem Base.loadRows (h : Base g) (rows : List DynamicSnapshot) : Base (loadRows g rows) := by
  unfold Tayga.loadRows
  induction rows generalizing g with
  | nil => exact h
  | cons r rows ih =>
    rw [List.foldl_cons]
    refine ih ?_
    cases hp : g.dynamicPool with
    | none =>
      have e : loadMap g r.addr6 r.addr4 r.lastUse = g := by
        unfold loadMap
        rw [hp]
      rw [e]
      exact h
    | some p =>
      rcases loadMap_cases h hp r with ⟨ha, -, -, f, hf, e⟩ | ⟨-, e⟩ <;> rw [e]
      · exact h.stored hp hf ha.valid
      · exact h

/-! ### The leases come back into use -/

/-- What bringing one dormant lease back into use keeps the last loop keeps. -/
theorem wakeLeases_induct {P : Gcfg → Prop} (hwake : ∀ s d, P s → d ∈ s.dormant → P (moveToMapped s d)) (h : P g)
    (fuel : Nat) : P (wakeLeases fuel g) := by
  induction fuel generalizing g with
  | zero => exact h
  | succ fuel ih =>
    unfold wakeLeases
    split
    · exact h
    · rename_i p hp
      split
      · exact h
      · rename_i d hd
        split
        · exact h
        · refine ih (hwake g d h ?_)
          rw [dormant_of_pool hp]
          exact List.mem_of_head? hd

/-- What a new time of last use of a lease, and bringing a dormant lease back into use, keep the end of the load
keeps. -/
theorem settleLeases_induct {P : Gcfg → Prop} (hwake : ∀ s d, P s → d ∈ s.dormant → P (moveToMapped s d))
    (hdate : ∀ s d t, P s → P (s.setHost d { s.hosts d with lastUse := t })) (h : P g) : P (settleLeases g) := by
  unfold settleLeases
  split
  · exact h
  · rename_i p hp
    simp only []
    split
    · rename_i hlate
      clear hlate hp
      generalize p.dormantList = l
      induction l generalizing g with
      | nil => exact h
      | cons d l ih => exact ih (hdate g d _ h)
    · exact wakeLeases_induct hwake h _

/-- Whatever the file holds, the load keeps the base invariant. -/
theorem Base.loadDynamic (h : Base g) (file : Option (List Char)) (time : Int) :
    Base (loadDynamic g libc file time) := by
  unfold Tayga.loadDynamic
  split
  · refine settleLeases_induct (fun _ _ h hd => h.moveToMapped hd) (fun _ d t h => h.setLastUse d t) ?_
    exact (h.loadRows _).bookkeeping (by constructor <;> intros <;> rfl) rfl rfl rfl
  · exact h

end Tayga
