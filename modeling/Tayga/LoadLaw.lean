import Tayga.LeaseTable
import Tayga.ReloadLaw

/-!
# Loading an arbitrary dynamic map file

The leases a file leaves behind, for every content of the file and every accepted configuration.  They have all the
properties of leases that were assigned, except that the check of a line for a host that already has a lease misses the
dormant leases, and during the load all are dormant: two accepted lines may name the same host.  The law holds exactly
when they do not (`load_law_startup`).
-/

namespace Tayga

open FreeRuns FirstMatch

variable {g s s' : Gcfg} {p : DynamicPool} {libc : Libc}

/-! ### The end of the load leaves the leases what they are -/

/-- All leases, those in use first. -/
def Gcfg.leases (g : Gcfg) : List Nat := g.mapped ++ g.dormant

theorem Base.nodup_leases (h : Base g) : g.leases.Nodup := by
  unfold Gcfg.leases Gcfg.mapped Gcfg.dormant
  cases hp : g.dynamicPool with
  | none => exact List.nodup_nil
  | some p => exact (h.runs p hp).nodup_leases

/-- The two states have the same leases with the same addresses, and the same static entries. -/
structure SameLeases (s s' : Gcfg) : Prop where
  leases : s'.leases.Perm s.leases
  host4 : ∀ d, (s'.hosts d).map4 = (s.hosts d).map4
  host6 : ∀ d, (s'.hosts d).map6 = (s.hosts d).map6
  statics : s'.statics = s.statics
  static4 : ∀ i, .static i ∈ s'.map4List ↔ .static i ∈ s.map4List
  static6 : ∀ i, .static i ∈ s'.map6List ↔ .static i ∈ s.map6List
  isSome : s'.dynamicPool.isSome = s.dynamicPool.isSome
  pool : s'.map4 .pool = s.map4 .pool

namespace SameLeases

theorem refl (s : Gcfg) : SameLeases s s := by
  constructor <;> simp

theorem trans {s'' : Gcfg} (h : SameLeases s s') (h' : SameLeases s' s'') : SameLeases s s'' where
  leases := h'.leases.trans h.leases
  host4 d := (h'.host4 d).trans (h.host4 d)
  host6 d := (h'.host6 d).trans (h.host6 d)
  statics := h'.statics.trans h.statics
  static4 i := (h'.static4 i).trans (h.static4 i)
  static6 i := (h'.static6 i).trans (h.static6 i)
  isSome := h'.isSome.trans h.isSome
  pool := h'.pool.trans h.pool

theorem setLastUse (s : Gcfg) (d : Nat) (t : Int) : SameLeases s (s.setHost d { s.hosts d with lastUse := t }) := by
  have hm := SameMaps.setHost s d { s.hosts d with lastUse := t } rfl rfl rfl
  refine ⟨List.Perm.refl _, hm.host4, hm.host6, rfl, fun _ => Iff.rfl, fun _ => Iff.rfl, rfl, rfl⟩

/-- Moving a dormant lease to the mapped list. -/
theorem moveToMapped (h : Base s) {d : Nat} (hd : d ∈ s.dormant) : SameLeases s (moveToMapped s d) := by
  have hb := h.moveToMapped hd
  obtain ⟨l4, l6, e, -, -, hm4, hm6⟩ := moveToMapped_spec h hd
  obtain ⟨p, hp⟩ := exists_pool (.inr hd)
  have hdp : d ∈ p.dormantList := by rwa [← dormant_of_pool hp]
  have hnd := hb.nodup_leases
  rw [e] at hnd ⊢
  refine ⟨(List.perm_ext_iff_of_nodup hnd h.nodup_leases).2 fun c => ?_, fun _ => rfl, fun _ => rfl, rfl,
    fun i => hm4 _ (by simp), fun i => hm6 _ (by simp), by simp, by simp only [Gcfg.map4, hp, Option.map_some]⟩
  simp only [Gcfg.leases, Gcfg.mapped, Gcfg.dormant, hp, Option.map_some, List.mem_append, List.mem_cons,
    List.mem_filter, decide_eq_true_eq]
  by_cases hc : c = d
  · simp [hc, hdp]
  · simp [hc]

/-- The end of the load. -/
theorem settleLeases (h : Base s) : SameLeases s (settleLeases s) :=
  (settleLeases_induct (P := fun s' => Base s' ∧ SameLeases s s')
    (fun _ _ h' hd => ⟨h'.1.moveToMapped hd, h'.2.trans (SameLeases.moveToMapped h'.1 hd)⟩)
    (fun s' d t h' => ⟨h'.1.setLastUse d t, h'.2.trans (SameLeases.setLastUse s' d t)⟩) ⟨h, refl s⟩).2

theorem v4 (h : SameLeases s s') (d : Nat) : s'.v4 d = s.v4 d := by simp only [Gcfg.v4, h.host4]

theorem v6 (h : SameLeases s s') (d : Nat) : s'.v6 d = s.v6 d := by simp only [Gcfg.v6, h.host6]

end SameLeases

/-! ### Leases that can be linked one after the other -/

/-- Linking a lease leaves the others linkable. -/
theorem Linkable.other {d e : Nat} (hl : Linkable g d) (he : Linkable g e) (h : Inv g) (hne : e ≠ d) :
    Linkable (linked g d) e := by
  obtain ⟨p, hp⟩ := exists_pool (.inr hl.dormant)
  have hlease : ∀ c ∈ g.dormant, c ∈ p.mappedList ∨ c ∈ p.dormantList := fun c hc =>
    Or.inr (by rwa [dormant_of_pool hp] at hc)
  have h4 : g.v4 e ≠ g.v4 d := fun hv =>
    hne ((h.pool p hp).v4_inj (hlease e he.dormant) (hlease d hl.dormant) hv)
  have h6 : g.v6 e ≠ g.v6 d := fun hv =>
    hne ((h.pool p hp).v6_inj e d (hlease e he.dormant) (hlease d hl.dormant) hv)
  refine ⟨⟨(mem_dormant_linked hp).2 ⟨he.dormant, hne⟩, ?_⟩, ?_⟩
  · exact (hl.findMap6_other h.base h6).trans he.uncovered
  · rintro (⟨m, hm, hlen, ha⟩ | hc)
    · rw [map4_linked] at hlen ha
      rcases Linkable.mem4.1 hm with rfl | hm
      · exact h4 ha.symm
      · exact he.clear (Or.inl ⟨m, hm, hlen, ha⟩)
    · exact he.clear (Or.inr hc)

/-- The end of the load keeps the invariant when every dormant lease can be linked. -/
theorem Inv.settleLeases (h : Inv s) (hl : ∀ d ∈ s.dormant, Linkable s d) : Inv (settleLeases s) := by
  refine (settleLeases_induct (P := fun s => Inv s ∧ ∀ d ∈ s.dormant, Linkable s d) ?_ ?_ ⟨h, hl⟩).1
  · intro s d hs hd
    have hld := hs.2 d hd
    refine ⟨hld.inv_moveToMapped hs.1, fun e he => ?_⟩
    rw [moveToMapped_eq (hld.not_same hs.1.base) (hld.no_clash hs.1.base)] at he ⊢
    obtain ⟨p, hp⟩ := exists_pool (.inr hd)
    obtain ⟨he, hne⟩ := (mem_dormant_linked hp).1 he
    exact hld.other (hs.2 e he) hs.1 hne
  · intro s d t hs
    have hm := SameMaps.setHost s d { s.hosts d with lastUse := t } rfl rfl rfl
    refine ⟨hs.1.setLastUse d t, fun e he => ?_⟩
    have hle := hs.2 e he
    refine ⟨⟨he, ?_⟩, ?_⟩
    · rw [hm.findMap6, hm.v6]
      exact hle.uncovered
    · unfold Shadowed
      rw [hm.map4, hm.v4]
      exact hle.clear

/-- A dormant lease whose address belongs to the pool can be linked. -/
private theorem Inv.linkable_of_admissible (h : Inv g) (hp : g.dynamicPool = some p) {d : Nat} (hd : d ∈ g.dormant)
    (ha : Admissible g p (leaseRow g d)) : Linkable g d := by
  refine ⟨⟨hd, ha.find6⟩, ?_⟩
  rintro (⟨m, hm, hl, hv⟩ | ⟨c, hc, hv⟩)
  · -- a host entry would have been found in place of the pool
    have hf := h.maps.list4.find_host hm hl
    rw [hv] at hf
    have hf' := ha.find4
    rw [findMap4_eq] at hf'
    obtain rfl := Option.some.inj (hf.symm.trans hf')
    rw [Gcfg.map4, hp] at hl hv
    exact ha.ne_base hv.symm
  · -- a cached pair would have been found by the slow path
    obtain ⟨l, hr⟩ := h.coherent _ _ ⟨c, hc, hv, rfl⟩
    rw [resolve4, show findMap4 g (g.v4 d) = some .pool from ha.find4] at hr
    cases hr

/-! ### The law -/

/-- What is to hold of the leases after a load. -/
structure LoadLaw (g : Gcfg) : Prop where
  inj4 : ∀ d e, g.Lease d → g.Lease e → g.v4 d = g.v4 e → d = e
  inj6 : ∀ d e, g.Lease d → g.Lease e → g.v6 d = g.v6 e → d = e
  in_pool : ∀ d, g.Lease d → (g.map4 .pool).covers (g.v4 d) = true
  apart4 : ∀ d, g.Lease d → ∀ i, .static i ∈ g.map4List → (g.statics i).map4.covers (g.v4 d) = true →
    (g.statics i).map4.prefixLen < (g.map4 .pool).prefixLen
  apart6 : ∀ d, g.Lease d → ∀ i, .static i ∈ g.map6List → (g.statics i).map6.covers (g.v6 d) = false
  partition : ∀ p, g.dynamicPool = some p → PoolPartition g p
  listed4 : ∀ d ∈ g.mapped, .host d ∈ g.map4List
  listed6 : ∀ d ∈ g.mapped, .host d ∈ g.map6List

private theorem lease_iff {d : Nat} : g.Lease d ↔ d ∈ g.leases := List.mem_append.symm

/-- Admissible leases are in the pool and apart from the static maps. -/
theorem Admissible.apart (h : Base g) {r : DynamicSnapshot} (ha : Admissible g p r) :
    (g.map4 .pool).covers r.addr4 = true ∧
    (∀ i, .static i ∈ g.map4List → (g.statics i).map4.covers r.addr4 = true →
      (g.statics i).map4.prefixLen < (g.map4 .pool).prefixLen) ∧
    ∀ i, .static i ∈ g.map6List → (g.statics i).map6.covers r.addr6 = false := by
  obtain ⟨hmem, hcov, hmax⟩ := h.tables.list4.find_eq_some.1 ha.find4
  refine ⟨hcov, fun i hi hc => ?_, fun i => ListWf6.find_eq_none.1 ha.find6 (.static i)⟩
  refine Nat.lt_of_le_of_ne (hmax _ hi hc) fun hlen => ?_
  have := h.tables.list4.distinct _ hi _ hmem
    ((h.tables.list4.wf _ hi).same_of_covers (h.tables.list4.wf _ hmem) hlen hc hcov)
  cases this

/-- After the end of the load every lease has the row of an accepted line. -/
theorem Loading.leases {seen : List DynamicSnapshot} (h : Loading g p seen s) (hs : SameLeases s s') :
    (s'.leases.map fun d => (s'.v4 d, s'.v6 d)).Perm (seen.map fun r => (r.addr4, r.addr6)) := by
  have hl : s.leases = s.dormant := by rw [Gcfg.leases, h.mapped, List.nil_append]
  have hrow : (fun d => (s'.v4 d, s'.v6 d)) = (fun r : DynamicSnapshot => (r.addr4, r.addr6)) ∘ leaseRow s := by
    funext d
    simp only [hs.v4, hs.v6, Function.comp_apply, leaseRow]
  rw [hrow, ← List.map_map]
  exact ((hs.leases.map _).trans (by rw [hl]; exact h.rows)).map _

theorem SameLeases.tick (s : Gcfg) (t : Int) : SameLeases s { s with now := t } :=
  ⟨List.Perm.refl _, fun _ => rfl, fun _ => rfl, rfl, fun _ => Iff.rfl, fun _ => Iff.rfl, rfl, rfl⟩

/-- The law holds of leases that are apart from the static maps, where the invariant holds. -/
private theorem Inv.loadLaw (h : Inv g) (hin : ∀ d, g.Lease d → (g.map4 .pool).covers (g.v4 d) = true)
    (h4 : ∀ d, g.Lease d → ∀ i, .static i ∈ g.map4List → (g.statics i).map4.covers (g.v4 d) = true →
      (g.statics i).map4.prefixLen < (g.map4 .pool).prefixLen)
    (h6 : ∀ d, g.Lease d → ∀ i, .static i ∈ g.map6List → (g.statics i).map6.covers (g.v6 d) = false) : LoadLaw g where
  inj4 _ _ := h.v4_inj
  inj6 _ _ := h.v6_inj
  in_pool := hin
  apart4 := h4
  apart6 := h6
  partition p hp := (h.pool p hp).partition
  listed4 := h.maps.listed4
  listed6 := h.maps.listed6

/-- After a load the law holds exactly when the accepted rows name distinct hosts. -/
private theorem Loading.loadLaw {seen : List DynamicSnapshot} (hi : Inv g) (hp : g.dynamicPool = some p)
    (h : Loading g p seen s) (t : Int) :
    LoadLaw (settleLeases { s with now := t }) ↔ (seen.map DynamicSnapshot.addr6).Nodup := by
  have hs : SameLeases s (settleLeases { s with now := t }) :=
    (SameLeases.tick s t).trans (SameLeases.settleLeases (h.base.tick t))
  have hrows := h.leases hs
  have hnd : (settleLeases { s with now := t }).leases.Nodup := hs.leases.nodup_iff.2 h.base.nodup_leases
  obtain ⟨q, hq, hmap⟩ := h.same.pool_map4 hp
  constructor
  · intro hl
    have hv := hrows.map Prod.snd
    rw [List.map_map, List.map_map] at hv
    refine hv.nodup_iff.1 ?_
    refine List.Nodup.map_on (fun d hd e he hde => ?_) hnd
    exact hl.inj6 d e (lease_iff.2 hd) (lease_iff.2 he) hde
  · intro hn
    have hinv := h.inv hi hn
    have hlink : ∀ d ∈ s.dormant, Linkable s d := by
      intro d hd
      refine hinv.linkable_of_admissible hq hd ((h.same.admissible hi.maps.toTablesInv hmap).2 (h.admissible _ ?_))
      exact h.rows.mem_iff.1 (List.mem_map_of_mem hd)
    have hinv' := (hinv.tick t).settleLeases fun d hd => ?_
    · -- the row of a lease is that of an admissible line
      have key : ∀ d, (settleLeases { s with now := t }).Lease d → ∃ r, Admissible s q r ∧
          r.addr4 = (settleLeases { s with now := t }).v4 d ∧ r.addr6 = (settleLeases { s with now := t }).v6 d := by
        intro d hd
        obtain ⟨r, hr, he⟩ := List.mem_map.1 (hrows.mem_iff.1 (List.mem_map_of_mem (lease_iff.1 hd)))
        rw [Prod.mk.injEq] at he
        exact ⟨r, (h.same.admissible hi.maps.toTablesInv hmap).2 (h.admissible r hr), he⟩
      refine hinv'.loadLaw ?_ ?_ ?_
      · intro d hd
        obtain ⟨r, ha, h4, -⟩ := key d hd
        rw [hs.pool, ← h4]
        exact (ha.apart h.base).1
      · intro d hd i hmem hc
        obtain ⟨r, ha, h4, -⟩ := key d hd
        rw [hs.statics, ← h4] at hc
        rw [hs.pool, hs.statics]
        exact (ha.apart h.base).2.1 i ((hs.static4 i).1 hmem) hc
      · intro d hd i hmem
        obtain ⟨r, ha, -, h6⟩ := key d hd
        rw [hs.statics, ← h6]
        exact (ha.apart h.base).2.2 i ((hs.static6 i).1 hmem)
    · have hld := hlink d hd
      exact ⟨⟨hd, hld.uncovered⟩, hld.clear⟩

/-- No two accepted lines of the file name the same host. -/
def DistinctHosts (g : Gcfg) (libc : Libc) (file : Option (List Char)) : Prop :=
  ∀ p content, g.dynamicPool = some p → file = some content → g.oom = false →
    ((accepted g p (dynamicRows libc content)).map DynamicSnapshot.addr6).Nodup

/-- Without leases the law is that of the invariant. -/
private theorem Inv.loadLaw_of_no_lease (h : Inv g) (hl : g.leases = []) : LoadLaw g := by
  have hno : ∀ d, ¬ g.Lease d := fun d hd => by
    rw [lease_iff, hl] at hd
    cases hd
  exact h.loadLaw (fun d hd => absurd hd (hno d)) (fun d hd => absurd hd (hno d)) fun d hd => absurd hd (hno d)

/-- A load into a state without leases. -/
private theorem loadLaw_loadDynamic (h : Inv g) (hl : g.leases = []) (file : Option (List Char)) (time : Int) :
    LoadLaw (loadDynamic g libc file time) ↔ DistinctHosts g libc file := by
  obtain ⟨hm, hd⟩ := List.append_eq_nil_iff.1 hl
  cases hp : g.dynamicPool with
  | none =>
    have e : loadDynamic g libc file time = g := by
      unfold loadDynamic
      rw [hp]
    rw [e]
    refine iff_of_true (h.loadLaw_of_no_lease hl) fun p content hp' => ?_
    rw [hp] at hp'
    cases hp'
  | some p =>
    cases file with
    | none =>
      have e : loadDynamic g libc none time = g := by
        unfold loadDynamic
        rw [hp]
      rw [e]
      exact iff_of_true (h.loadLaw_of_no_lease hl) fun _ _ _ hf => by cases hf
    | some content =>
      have e : loadDynamic g libc (some content) time =
          settleLeases { loadRows g (dynamicRows libc content) with now := time } := by
        unfold loadDynamic
        rw [hp]
      rw [e]
      cases ho : g.oom with
      | true =>
        rw [loadRows_of_oom ho]
        have hs := SameLeases.settleLeases (h.base.tick time)
        refine iff_of_true (((h.tick time).settleLeases fun d hd' => ?_).loadLaw_of_no_lease ?_) fun _ _ _ _ ho' => ?_
        · have : d ∈ g.dormant := hd'
          rw [hd] at this
          cases this
        · exact List.Perm.eq_nil (hs.leases.trans (List.Perm.of_eq hl))
        · rw [ho] at ho'
          cases ho'
      | false =>
        rw [(loading_loadRows h.base hp hm hd ho (dynamicRows libc content)).loadLaw h hp time]
        constructor
        · intro hn p' content' hp' hf _
          rw [hp] at hp'
          cases hp'
          cases hf
          exact hn
        · exact fun hn => hn p content hp rfl ho

/-! ### From every startup -/

private theorem leases_startup {e : Endian} {now : Int} {content : List Char} {sd : Option (List Char)}
    {rand : Nat → BitVec 32} (hs : startup libc e now content sd rand = .ok g) : g.leases = [] := by
  obtain ⟨s, hv, hg⟩ := startup_eq_ok hs
  have hpool : g.dynamicPool = s.dynamicPool := by rcases hg with rfl | rfl <;> rfl
  unfold Gcfg.leases Gcfg.mapped Gcfg.dormant
  cases hp : g.dynamicPool with
  | none => rfl
  | some p =>
    obtain ⟨-, hm, hd⟩ := hv.pool p (hpool ▸ hp)
    simp only [hm, hd, List.append_nil]

/-- A reload leaves the leases in their lists. -/
theorem dynamicPool_addrmapReload (h : Base g) (file : Option MapFileRead) :
    (addrmapReload g libc file).2.dynamicPool = g.dynamicPool := by
  rcases addrmapReload_eq g libc file with ⟨f, l, -, hl, -, -, e⟩ | ⟨-, e⟩ | e <;> rw [e]
  refine (publishMaps_induct (P := fun s => Base s ∧ s.dynamicPool = g.dynamicPool) (fun _ h => h.1) ?_ ?_ ?_
    (staged_parseMapFile hl) ⟨h, rfl⟩).2
  · intro s hs
    refine ⟨hs.1.dropFileMaps, ?_⟩
    rw [dropFileMaps_eq hs.1.tables]
    exact hs.2
  · exact fun s m hs hm => ⟨hs.1.withStatic hm, hs.2⟩
  · exact fun s c hs hc => ⟨hs.1.releaseEntry hc, (sameMaps_releaseEntry s c).dynamicPool.trans hs.2⟩

/-- The first load meets a state that keeps the invariant and has no leases. -/
theorem booted {e : Endian} {now : Int} {content : List Char} {sd : Option (List Char)} {rand : Nat → BitVec 32}
    {g₀ : Gcfg} (hs : startup libc e now content sd rand = .ok g₀) {maps : Option MapFileRead}
    (hr : addrmapReload g₀ libc maps = (.ok (), g)) : Inv g ∧ g.leases = [] := by
  have hi := (startup_inv hs).addrmapReload libc maps
  have hpool : (addrmapReload g₀ libc maps).2.dynamicPool = g₀.dynamicPool :=
    dynamicPool_addrmapReload (startup_inv hs).base maps
  have hl := leases_startup hs
  rw [hr] at hi hpool
  refine ⟨hi, ?_⟩
  unfold Gcfg.leases Gcfg.mapped Gcfg.dormant at hl ⊢
  rw [hpool]
  exact hl

/-- **After a load of any file the law holds exactly when no two accepted lines name the same host**, for every
accepted configuration and map file, and whether or not memory can be allocated. -/
theorem load_law_startup {e : Endian} {now : Int} {content : List Char} {sd : Option (List Char)}
    {rand : Nat → BitVec 32} {g₀ : Gcfg} (hs : startup libc e now content sd rand = .ok g₀) {maps : Option MapFileRead}
    (hr : addrmapReload g₀ libc maps = (.ok (), g)) (fails : Bool) (file : Option (List Char)) (time : Int) :
    LoadLaw (loadDynamic { g with oom := fails } libc file time) ↔ DistinctHosts { g with oom := fails } libc file := by
  obtain ⟨hi, hl⟩ := booted hs hr
  exact loadLaw_loadDynamic (hi.alloc fails) hl file time

/-- A startup with a pool and a data directory. -/
def sampleData : Except Error Gcfg := startWith "dynamic-pool 198.18.0.0/29\ndata-dir /var\n"

instance (g : Gcfg) (libc : Libc) (content : List Char) : Decidable (DistinctHosts g libc (some content)) :=
  match hp : g.dynamicPool with
  | none => isTrue fun p _ hp' => by rw [hp] at hp'; cases hp'
  | some p => decidable_of_iff (g.oom = false →
      ((accepted g p (dynamicRows libc content)).map DynamicSnapshot.addr6).Nodup) ⟨fun h p' c hp' hc ho => by
        rw [hp] at hp'
        cases hp'
        cases hc
        exact h ho, fun h ho => h p content hp rfl ho⟩

theorem load_law_startup_sample : ∃ g, sampleData = .ok g ∧ LoadLaw (loadDynamic { g with oom := false } sampleLibc
    (some "198.18.0.4\t2001:db8:2::\t999\n198.18.0.5\t2001:db8::99\t999\n".toList) 1000) := by
  obtain ⟨g, hs, hr, hd⟩ := start_any (r := sampleData) (p := fun g => g.mapFile = [] ∧
    DistinctHosts { g with oom := false } sampleLibc
      (some "198.18.0.4\t2001:db8:2::\t999\n198.18.0.5\t2001:db8::99\t999\n".toList)) (by decide +kernel)
  have hload : addrmapReload g sampleLibc none = (.ok (), g) := by
    unfold addrmapReload
    rw [if_pos hr]
  exact ⟨g, hs, (load_law_startup hs hload false _ 1000).2 hd⟩

/-- Two lines for one host: both leases are restored. -/
theorem load_law_startup_twice : ∃ g, sampleData = .ok g ∧ ¬ LoadLaw (loadDynamic g sampleLibc
    (some "198.18.0.4\t2001:db8::99\t999\n198.18.0.5\t2001:db8::99\t999\n".toList) 1000) := by
  obtain ⟨g, hs, h0, h1, h6⟩ := start_any (r := sampleData) (p := fun g =>
    let s := loadDynamic g sampleLibc
      (some "198.18.0.4\t2001:db8::99\t999\n198.18.0.5\t2001:db8::99\t999\n".toList) 1000
    0 ∈ s.mapped ∧ 1 ∈ s.mapped ∧ s.v6 0 = s.v6 1) (by decide +kernel)
  exact ⟨g, hs, fun hl => Nat.zero_ne_one (hl.inj6 0 1 (Or.inl h0) (Or.inl h1) h6)⟩

end Tayga
