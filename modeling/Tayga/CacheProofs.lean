import Tayga.Frame

/-!
# The cache between operations

How probes, publications and ageing change the set of cached pairs, and that the cache stays well formed.  A probe
changes no pair; a publication adds at most the published one (`cached_publish`); releasing an entry removes its
pair.  The lease pointers follow (`LinkInv`): a published lease points at the entry of its pair, and a released entry
is reported to the lease that points at it.
-/

namespace Tayga

variable {g : Gcfg}

/-! ### Searching the buckets -/

theorem CacheInv.cached4_some (h : CacheInv g) {a : In4} {c : Nat} (hc : cached4 g a = some c) :
    c ∈ g.cacheActive ∧ (g.entries c).addr4 = a := by
  have hp : a = (g.entries c).addr4 := by simpa using List.find?_some hc
  exact ⟨((h.hash4 _ c).1 (List.mem_of_find?_eq_some hc)).1, hp.symm⟩

theorem CacheInv.cached4_none (h : CacheInv g) {a : In4} :
    cached4 g a = none ↔ ∀ c ∈ g.cacheActive, (g.entries c).addr4 ≠ a := by
  unfold cached4
  rw [List.find?_eq_none]
  constructor
  · intro hn c hc he
    exact hn c ((h.hash4 _ c).2 ⟨hc, by rw [he]⟩) (by simp [he])
  · intro hn c hc
    have := hn c ((h.hash4 _ c).1 hc).1
    simpa using fun he => this he.symm

theorem CacheInv.cached6_some (h : CacheInv g) {x : In6} {c : Nat} (hc : cached6 g x = some c) :
    c ∈ g.cacheActive ∧ (g.entries c).addr6 = x := by
  have hp : x = (g.entries c).addr6 := by simpa using List.find?_some hc
  exact ⟨((h.hash6 _ c).1 (List.mem_of_find?_eq_some hc)).1, hp.symm⟩

theorem CacheInv.cached6_none (h : CacheInv g) {x : In6} :
    cached6 g x = none ↔ ∀ c ∈ g.cacheActive, (g.entries c).addr6 ≠ x := by
  unfold cached6
  rw [List.find?_eq_none]
  constructor
  · intro hn c hc he
    exact hn c ((h.hash6 _ c).2 ⟨hc, by rw [he]⟩) (by simp [he])
  · intro hn c hc
    have := hn c ((h.hash6 _ c).1 hc).1
    simpa using fun he => this he.symm

/-! ### Entries that keep their addresses -/

/-- The cache lists and tables are the same, and every entry keeps its addresses. -/
structure SamePairs (g g' : Gcfg) : Prop where
  cachePool : g'.cachePool = g.cachePool
  cacheActive : g'.cacheActive = g.cacheActive
  hashTable4 : g'.hashTable4 = g.hashTable4
  hashTable6 : g'.hashTable6 = g.hashTable6
  addr4 : ∀ c, (g'.entries c).addr4 = (g.entries c).addr4
  addr6 : ∀ c, (g'.entries c).addr6 = (g.entries c).addr6

theorem SamePairs.trans {g' g'' : Gcfg} (h : SamePairs g g') (h' : SamePairs g' g'') : SamePairs g g'' where
  cachePool := h'.cachePool.trans h.cachePool
  cacheActive := h'.cacheActive.trans h.cacheActive
  hashTable4 := h'.hashTable4.trans h.hashTable4
  hashTable6 := h'.hashTable6.trans h.hashTable6
  addr4 c := (h'.addr4 c).trans (h.addr4 c)
  addr6 c := (h'.addr6 c).trans (h.addr6 c)

theorem SamePairs.cached {g' : Gcfg} (h : SamePairs g g') (a : In4) (x : In6) : Cached g' a x ↔ Cached g a x := by
  simp only [Cached, h.cacheActive, h.addr4, h.addr6]

theorem SamePairs.cacheInv' {g' : Gcfg} (h : SamePairs g g') (hsize : g'.cacheSize = g.cacheSize)
    (h4 : ∀ a, hashIp4 g' a = hashIp4 g a) (h6 : ∀ x, hashIp6 g' x = hashIp6 g x) (hc : CacheInv g) : CacheInv g' where
  size := by rw [hsize, h.cachePool, h.cacheActive]; exact hc.size
  nodup := by rw [h.cachePool, h.cacheActive]; exact hc.nodup
  hash4 b c := by rw [h.hashTable4, h.cacheActive, h4, h.addr4]; exact hc.hash4 b c
  hash6 b c := by rw [h.hashTable6, h.cacheActive, h6, h.addr6]; exact hc.hash6 b c
  unique c hca c' hca' := by
    rw [h.cacheActive] at hca hca'
    rw [h.addr4, h.addr4, h.addr6, h.addr6]
    exact hc.unique c hca c' hca'

theorem SamePairs.cacheInv {g' : Gcfg} (h : SamePairs g g') (hm : SameMaps g g') (hc : CacheInv g) : CacheInv g' :=
  h.cacheInv' hm.cacheSize hm.hashIp4 hm.hashIp6 hc

private theorem samePairs_setEntry {c : Nat} {e : CacheEntry} (h4 : e.addr4 = (g.entries c).addr4)
    (h6 : e.addr6 = (g.entries c).addr6) : SamePairs g (g.setEntry c e) := by
  refine ⟨rfl, rfl, rfl, rfl, ?_, ?_⟩ <;>
  · intro c'
    by_cases hc : c' = c
    · subst hc
      simp [Gcfg.setEntry, h4, h6]
    · simp [Gcfg.setEntry, Function.update_of_ne hc]

theorem samePairs_setHost (d : Nat) (h : MapDynamic) : SamePairs g (g.setHost d h) :=
  ⟨rfl, rfl, rfl, rfl, fun _ => rfl, fun _ => rfl⟩

theorem samePairs_touch (c : Nat) : SamePairs g (touch g c) := samePairs_setEntry rfl rfl

theorem sameMaps_touch (c : Nat) : SameMaps g (touch g c) := SameMaps.setEntry g c _

/-- Where the maps are as before only the cache matters. -/
theorem Base.frame (h : Base g) {g' : Gcfg} (hm : SameMaps g g') (hc : CacheInv g') : Base g' where
  tables := hm.tablesInv h.tables
  runs p hp := hm.runsInv (h.runs p (hm.dynamicPool ▸ hp))
  valid := hm.leasesValid h.valid
  cache := hc

/-- Where maps and pairs are as before only the pointers between leases and entries matter. -/
theorem Inv.frame (h : Inv g) {g' : Gcfg} (hm : SameMaps g g') (hp : SamePairs g g')
    (hc : ∀ d, (g'.hosts d).cacheEntry = (g.hosts d).cacheEntry)
    (hr : ∀ c, (g'.entries c).repAgeout = (g.entries c).repAgeout) : Inv g' where
  maps := hm.mapsInv h.maps
  pool p hpool := hm.poolInv (h.pool p (hm.dynamicPool ▸ hpool))
  valid := hm.leasesValid h.valid
  cache := hp.cacheInv hm h.cache
  coherent a x hca := by
    rw [hm.resolve4]
    exact h.coherent a x ((hp.cached a x).1 hca)
  link := by
    refine ⟨?_, ?_, ?_⟩
    · intro d hd c
      rw [hm.mapped] at hd
      rw [hc, hp.cacheActive, hp.addr4, hm.v4]
      exact h.link.link d hd c
    · intro d hd c
      rw [hm.mapped] at hd
      rw [hc, hr]
      exact h.link.flag d hd c
    · intro d hd
      rw [hm.dormant] at hd
      rw [hc]
      exact h.link.dormant d hd

/-- A lookup answered from the cache keeps the invariant. -/
theorem Inv.touch (h : Inv g) (c : Nat) : Inv (touch g c) :=
  h.frame (sameMaps_touch c) (samePairs_touch c) (fun _ => rfl) fun c' => by
    by_cases he : c' = c
    · subst he
      simp [Tayga.touch, Gcfg.setEntry]
    · simp [Tayga.touch, Gcfg.setEntry, Function.update_of_ne he]

theorem Base.touch (h : Base g) (c : Nat) : Base (touch g c) :=
  h.frame (sameMaps_touch c) ((samePairs_touch c).cacheInv (sameMaps_touch c) h.cache)

/-- The time of last use of a lease is not part of the invariant. -/
theorem Inv.setLastUse (h : Inv g) (d : Nat) (t : Int) : Inv (g.setHost d { g.hosts d with lastUse := t }) :=
  h.frame (SameMaps.setHost g d _ rfl rfl rfl) (samePairs_setHost d _) (fun e => by
    by_cases he : e = d
    · subst he
      simp [Gcfg.setHost]
    · simp [Gcfg.setHost, Function.update_of_ne he]) fun _ => rfl

theorem Base.setLastUse (h : Base g) (d : Nat) (t : Int) : Base (g.setHost d { g.hosts d with lastUse := t }) :=
  h.frame (SameMaps.setHost g d _ rfl rfl rfl)
    ((samePairs_setHost d _).cacheInv (SameMaps.setHost g d _ rfl rfl rfl) h.cache)

/-! ### Lookups in a coherent state -/

/-- In a coherent state `map_ip4_to_ip6` answers what its slow path finds, hit or not. -/
theorem mapIp4ToIp6_fst (hc : CacheInv g) (hco : Coherent g) (a : In4) :
    (mapIp4ToIp6 g a).1 = (resolve4 g a).map Found.addr := by
  unfold mapIp4ToIp6 probe4
  split
  · rename_i x g' hp
    split at hp
    · cases hp
    · cases hf : cached4 g a with
      | none =>
        rw [hf] at hp
        cases hp
      | some c =>
        rw [hf] at hp
        cases hp
        obtain ⟨hca, hc4⟩ := hc.cached4_some hf
        obtain ⟨l, hl⟩ := hco a _ ⟨c, hca, hc4, rfl⟩
        rw [hl]
        rfl
  · unfold slow4
    cases resolve4 g a <;> rfl

/-- A hit of `map_ip6_to_ip4`, or its slow path. -/
theorem mapIp6ToIp4_cases (x : In6) (dyn : Bool) :
    (∃ c, g.cacheSize ≠ 0 ∧ cached6 g x = some c ∧ mapIp6ToIp4 g x dyn = (.ok (g.entries c).addr4, touch g c)) ∨
    ((g.cacheSize = 0 ∨ cached6 g x = none) ∧ mapIp6ToIp4 g x dyn = slow6 g x dyn) := by
  unfold mapIp6ToIp4 probe6
  by_cases h0 : g.cacheSize = 0
  · exact Or.inr ⟨Or.inl h0, by simp [h0]⟩
  · cases hc : cached6 g x with
    | none => exact Or.inr ⟨Or.inr rfl, by simp [h0]⟩
    | some c => exact Or.inl ⟨c, h0, rfl, by simp [h0]⟩

/-- A hit of `map_ip4_to_ip6`, or its slow path. -/
theorem mapIp4ToIp6_cases (a : In4) :
    (∃ c, g.cacheSize ≠ 0 ∧ cached4 g a = some c ∧ mapIp4ToIp6 g a = (.ok (g.entries c).addr6, touch g c)) ∨
    ((g.cacheSize = 0 ∨ cached4 g a = none) ∧ mapIp4ToIp6 g a = slow4 g a) := by
  unfold mapIp4ToIp6 probe4
  by_cases h0 : g.cacheSize = 0
  · exact Or.inr ⟨Or.inl h0, by simp [h0]⟩
  · cases hc : cached4 g a with
    | none => exact Or.inr ⟨Or.inr rfl, by simp [h0]⟩
    | some c => exact Or.inl ⟨c, h0, rfl, by simp [h0]⟩

/-! ### Insertion -/

/-- `cache_insert` finds the pair, finds no free entry, or fills one. -/
theorem cacheInsert_cases (hc : CacheInv g) (a : In4) (x : In6) :
    (∃ c ∈ g.cacheActive, (g.entries c).addr4 = a ∧ (g.entries c).addr6 = x ∧
      cacheInsert g a x (hashIp4 g a) (hashIp6 g x) = (some c, touch g c)) ∨
    (¬ Cached g a x ∧ g.cachePool = [] ∧ cacheInsert g a x (hashIp4 g a) (hashIp6 g x) = (none, g)) ∨
    (¬ Cached g a x ∧ ∃ c pool, g.cachePool = c :: pool ∧ cacheInsert g a x (hashIp4 g a) (hashIp6 g x) =
      (some c, fillEntry g c pool a x (hashIp4 g a) (hashIp6 g x))) := by
  unfold cacheInsert
  split
  · rename_i c hf
    have hp := List.find?_some hf
    simp only [decide_eq_true_eq] at hp
    exact Or.inl ⟨c, ((hc.hash4 _ c).1 (List.mem_of_find?_eq_some hf)).1, hp.1, hp.2, rfl⟩
  · rename_i hf
    have hno : ¬ Cached g a x := by
      rintro ⟨c, hca, h4, h6⟩
      have := List.find?_eq_none.1 hf c ((hc.hash4 _ c).2 ⟨hca, by rw [h4]⟩)
      simp [h4, h6] at this
    split
    · rename_i hp
      exact Or.inr (Or.inl ⟨hno, hp, rfl⟩)
    · rename_i c pool hp
      exact Or.inr (Or.inr ⟨hno, c, pool, hp, rfl⟩)

section Fill

variable {c : Nat} {pool : List Nat} {a : In4} {x : In6}

private theorem sameMaps_fillEntry (h4 h6 : Nat) : SameMaps g (fillEntry g c pool a x h4 h6) := by
  constructor <;> simp [fillEntry, addToHashTable, Gcfg.setEntry]

theorem entries_fillEntry (h4 h6 : Nat) :
    (fillEntry g c pool a x h4 h6).entries = Function.update g.entries c ⟨x, a, g.now, false, 1⟩ := rfl

private theorem cacheActive_fillEntry (h4 h6 : Nat) :
    (fillEntry g c pool a x h4 h6).cacheActive = c :: g.cacheActive := rfl

/-- A free entry is not active. -/
theorem CacheInv.not_active (hc : CacheInv g) (hp : g.cachePool = c :: pool) : c ∉ g.cacheActive := by
  intro hca
  have := hc.nodup
  rw [hp, List.cons_append, List.nodup_cons] at this
  exact this.1 (List.mem_append_right _ hca)

private theorem CacheInv.ne_of_active (hc : CacheInv g) (hp : g.cachePool = c :: pool) :
    ∀ c' ∈ g.cacheActive, c' ≠ c := by
  rintro c' hc' rfl
  exact hc.not_active hp hc'

theorem CacheInv.fill (hc : CacheInv g) (hp : g.cachePool = c :: pool) (hno : ¬ Cached g a x) :
    CacheInv (fillEntry g c pool a x (hashIp4 g a) (hashIp6 g x)) := by
  have hna := hc.not_active hp
  have hne := hc.ne_of_active hp
  have hent : ∀ c' ∈ g.cacheActive, (fillEntry g c pool a x (hashIp4 g a) (hashIp6 g x)).entries c' = g.entries c' :=
    fun c' hc' => by rw [entries_fillEntry, Function.update_of_ne (hne c' hc')]
  have hself : (fillEntry g c pool a x (hashIp4 g a) (hashIp6 g x)).entries c = ⟨x, a, g.now, false, 1⟩ := by
    rw [entries_fillEntry, Function.update_self]
  have hm : SameMaps g (fillEntry g c pool a x (hashIp4 g a) (hashIp6 g x)) := sameMaps_fillEntry _ _
  refine ⟨?_, ?_, ?_, ?_, ?_⟩
  · intro h0
    rw [hm.cacheSize] at h0
    have := (hc.size h0).1
    rw [hp] at this
    cases this
  · have := hc.nodup
    rw [hp] at this
    exact (List.perm_middle.nodup_iff).2 this
  · intro b c'
    rw [hm.hashIp4, cacheActive_fillEntry]
    have : (fillEntry g c pool a x (hashIp4 g a) (hashIp6 g x)).hashTable4 =
        Function.update g.hashTable4 (hashIp4 g a) (c :: g.hashTable4 (hashIp4 g a)) := rfl
    rw [this]
    have hold := hc.hash4 b c'
    by_cases hcc : c' = c
    · subst hcc
      rw [hself]
      by_cases hb : b = hashIp4 g a
      · subst hb
        simp
      · rw [Function.update_of_ne hb, hold]
        simp [hna, Ne.symm hb]
    · by_cases hb : b = hashIp4 g a
      · subst hb
        rw [Function.update_self, List.mem_cons, List.mem_cons]
        simp only [hcc, false_or]
        rw [hold, entries_fillEntry, Function.update_of_ne hcc]
      · rw [Function.update_of_ne hb, List.mem_cons, entries_fillEntry, Function.update_of_ne hcc]
        simp only [hcc, false_or]
        exact hold
  · intro b c'
    rw [hm.hashIp6, cacheActive_fillEntry]
    have : (fillEntry g c pool a x (hashIp4 g a) (hashIp6 g x)).hashTable6 =
        Function.update g.hashTable6 (hashIp6 g x) (c :: g.hashTable6 (hashIp6 g x)) := rfl
    rw [this]
    have hold := hc.hash6 b c'
    by_cases hcc : c' = c
    · subst hcc
      rw [hself]
      by_cases hb : b = hashIp6 g x
      · subst hb
        simp
      · rw [Function.update_of_ne hb, hold]
        simp [hna, Ne.symm hb]
    · by_cases hb : b = hashIp6 g x
      · subst hb
        rw [Function.update_self, List.mem_cons, List.mem_cons]
        simp only [hcc, false_or]
        rw [hold, entries_fillEntry, Function.update_of_ne hcc]
      · rw [Function.update_of_ne hb, List.mem_cons, entries_fillEntry, Function.update_of_ne hcc]
        simp only [hcc, false_or]
        exact hold
  · intro c1 h1 c2 h2 e4 e6
    rw [cacheActive_fillEntry, List.mem_cons] at h1 h2
    rcases h1 with rfl | h1 <;> rcases h2 with rfl | h2
    · rfl
    · rw [hself, hent c2 h2] at e4 e6
      exact absurd ⟨c2, h2, e4.symm, e6.symm⟩ hno
    · rw [hself, hent c1 h1] at e4 e6
      exact absurd ⟨c1, h1, e4, e6⟩ hno
    · rw [hent c1 h1, hent c2 h2] at e4 e6
      exact hc.unique c1 h1 c2 h2 e4 e6

private theorem cached_fillEntry (hc : CacheInv g) (hp : g.cachePool = c :: pool) (a' : In4) (x' : In6) :
    Cached (fillEntry g c pool a x (hashIp4 g a) (hashIp6 g x)) a' x' ↔ Cached g a' x' ∨ (a' = a ∧ x' = x) := by
  have hne := hc.ne_of_active hp
  unfold Cached
  rw [cacheActive_fillEntry, entries_fillEntry]
  constructor
  · rintro ⟨c', hc', h4, h6⟩
    rcases List.mem_cons.1 hc' with rfl | hc'
    · rw [Function.update_self] at h4 h6
      exact Or.inr ⟨h4.symm, h6.symm⟩
    · rw [Function.update_of_ne (hne c' hc')] at h4 h6
      exact Or.inl ⟨c', hc', h4, h6⟩
  · rintro (⟨c', hc', h4, h6⟩ | ⟨rfl, rfl⟩)
    · refine ⟨c', List.mem_cons_of_mem c hc', ?_, ?_⟩ <;>
        rw [Function.update_of_ne (hne c' hc')]
      · exact h4
      · exact h6
    · exact ⟨c, List.mem_cons_self, by rw [Function.update_self], by rw [Function.update_self]⟩

end Fill

/-! ### Publication -/

theorem sameMaps_useLease (l : Option Nat) : SameMaps g (useLease g l) := by
  cases l with
  | none => exact SameMaps.refl g
  | some d => exact SameMaps.setHost g d _ rfl rfl rfl

theorem samePairs_useLease (l : Option Nat) : SamePairs g (useLease g l) := by
  cases l with
  | none => exact ⟨rfl, rfl, rfl, rfl, fun _ => rfl, fun _ => rfl⟩
  | some d => exact samePairs_setHost d _

theorem Inv.useLease (h : Inv g) (l : Option Nat) : Inv (useLease g l) := by
  cases l with
  | none => exact h
  | some d => exact h.setLastUse d g.now

/-- What `cache_insert` does to the state, whichever way it goes. -/
structure Inserted (g g' : Gcfg) (a : In4) (x : In6) (r : Option Nat) : Prop where
  same : SameMaps g g'
  hosts : g'.hosts = g.hosts
  cache : CacheInv g'
  cached : ∀ a' x', Cached g' a' x' ↔ Cached g a' x' ∨ (g.cachePool ≠ [] ∧ a' = a ∧ x' = x)
  entry : ∀ c, r = some c → c ∈ g'.cacheActive ∧ (g'.entries c).addr4 = a ∧ (g'.entries c).addr6 = x
  none : r = none → ¬ Cached g a x ∧ g.cachePool = []
  active : ∀ c, c ∈ g'.cacheActive ↔ c ∈ g.cacheActive ∨ r = some c
  old : ∀ c ∈ g.cacheActive, (g'.entries c).addr4 = (g.entries c).addr4 ∧
    (g'.entries c).repAgeout = (g.entries c).repAgeout

private theorem inserted_cacheInsert (hc : CacheInv g) (a : In4) (x : In6) :
    Inserted g (cacheInsert g a x (hashIp4 g a) (hashIp6 g x)).2 a x
      (cacheInsert g a x (hashIp4 g a) (hashIp6 g x)).1 := by
  rcases cacheInsert_cases hc a x with ⟨c, hca, h4, h6, e⟩ | ⟨hno, hp, e⟩ | ⟨hno, c, pool, hp, e⟩ <;> rw [e]
  · have hs := samePairs_touch (g := g) c
    refine ⟨sameMaps_touch c, rfl, hs.cacheInv (sameMaps_touch c) hc, ?_, ?_, ?_, ?_, ?_⟩
    · intro a' x'
      rw [hs.cached]
      constructor
      · exact Or.inl
      · rintro (h | ⟨-, rfl, rfl⟩)
        · exact h
        · exact ⟨c, hca, h4, h6⟩
    · rintro c' he
      cases he
      exact ⟨hca, (hs.addr4 c).trans h4, (hs.addr6 c).trans h6⟩
    · intro h
      cases h
    · intro c'
      constructor
      · exact Or.inl
      · rintro (h | h)
        · exact h
        · cases h
          exact hca
    · intro c' _
      refine ⟨hs.addr4 c', ?_⟩
      by_cases he : c' = c
      · subst he
        simp [touch, Gcfg.setEntry]
      · simp [touch, Gcfg.setEntry, Function.update_of_ne he]
  · refine ⟨SameMaps.refl g, rfl, hc, ?_, ?_, fun _ => ⟨hno, hp⟩, ?_, fun _ _ => ⟨rfl, rfl⟩⟩
    · intro a' x'
      simp [hp]
    · intro c h
      cases h
    · intro c
      simp
  · refine ⟨sameMaps_fillEntry _ _, rfl, hc.fill hp hno, ?_, ?_, ?_, ?_, ?_⟩
    · intro a' x'
      rw [cached_fillEntry hc hp]
      simp [hp]
    · intro c' he
      cases he
      refine ⟨?_, ?_, ?_⟩
      · rw [cacheActive_fillEntry]
        exact List.mem_cons_self
      · rw [entries_fillEntry, Function.update_self]
      · rw [entries_fillEntry, Function.update_self]
    · intro h
      cases h
    · intro c'
      rw [cacheActive_fillEntry, List.mem_cons]
      constructor
      · rintro (rfl | h)
        · exact Or.inr rfl
        · exact Or.inl h
      · rintro (h | h)
        · exact Or.inr h
        · cases h
          exact Or.inl rfl
    · intro c' hc'
      rw [entries_fillEntry, Function.update_of_ne (hc.ne_of_active hp c' hc')]
      exact ⟨rfl, rfl⟩

/-- Pointing a lease at an entry and flagging the entry leaves maps and pairs alone. -/
private theorem pointLease_frame (l r : Option Nat) :
    SameMaps g (pointLease g l r) ∧ SamePairs g (pointLease g l r) := by
  cases l with
  | none => exact ⟨SameMaps.refl _, rfl, rfl, rfl, rfl, fun _ => rfl, fun _ => rfl⟩
  | some d =>
    have hm := SameMaps.setHost g d { g.hosts d with cacheEntry := r } rfl rfl rfl
    cases r with
    | none => exact ⟨hm, samePairs_setHost d _⟩
    | some c =>
      have hp : SamePairs (g.setHost d { g.hosts d with cacheEntry := some c }) (pointLease g (some d) (some c)) :=
        samePairs_setEntry rfl rfl
      exact ⟨hm.trans (SameMaps.setEntry _ c _), (samePairs_setHost d _).trans hp⟩

theorem cacheEntry_pointLease (e : Nat) (r : Option Nat) (d : Nat) : ((pointLease g (some e) r).hosts d).cacheEntry =
    if d = e then r else (g.hosts d).cacheEntry := by
  cases r <;>
  · by_cases hd : d = e
    · subst hd
      simp [pointLease, Gcfg.setHost, Gcfg.setEntry]
    · simp [pointLease, Gcfg.setHost, Gcfg.setEntry, hd]

private theorem repAgeout_pointLease (e c : Nat) : ((pointLease g (some e) (some c)).entries c).repAgeout = true := by
  simp [pointLease, Gcfg.setEntry]

private theorem repAgeout_pointLease_mono (l r : Option Nat) {c : Nat} (hc : (g.entries c).repAgeout = true) :
    ((pointLease g l r).entries c).repAgeout = true := by
  cases l with
  | none => exact hc
  | some e =>
    cases r with
    | none => exact hc
    | some c' =>
      by_cases hcc : c = c'
      · subst hcc
        exact repAgeout_pointLease e c
      · simpa [pointLease, Gcfg.setHost, Gcfg.setEntry, Function.update_of_ne hcc] using hc

private theorem filePair_frame (a : In4) (x : In6) (l : Option Nat) :
    SameMaps (cacheInsert g a x (hashIp4 g a) (hashIp6 g x)).2 (filePair g a x l) ∧
    SamePairs (cacheInsert g a x (hashIp4 g a) (hashIp6 g x)).2 (filePair g a x l) := pointLease_frame l _

private theorem sameMaps_filePair (hc : CacheInv g) (a : In4) (x : In6) (l : Option Nat) :
    SameMaps g (filePair g a x l) :=
  (inserted_cacheInsert hc a x).same.trans (filePair_frame a x l).1

theorem CacheInv.filePair (hc : CacheInv g) (a : In4) (x : In6) (l : Option Nat) : CacheInv (filePair g a x l) :=
  (filePair_frame a x l).2.cacheInv (filePair_frame a x l).1 (inserted_cacheInsert hc a x).cache

private theorem cached_filePair (hc : CacheInv g) (a : In4) (x : In6) (l : Option Nat) (a' : In4) (x' : In6) :
    Cached (filePair g a x l) a' x' ↔ Cached g a' x' ∨ (g.cachePool ≠ [] ∧ a' = a ∧ x' = x) := by
  rw [(filePair_frame a x l).2.cached]
  exact (inserted_cacheInsert hc a x).cached a' x'

/-- A mapped lease answers for its own address. -/
theorem MapsInv.find4_lease (hm : MapsInv g) {d : Nat} (hd : d ∈ g.mapped) : findMap4 g (g.v4 d) = some (.host d) :=
  hm.list4.find_host (hm.listed4 d hd) (by rw [Gcfg.map4, (hm.host_ok d (Or.inl hd)).map4])

theorem MapsInv.find6_lease (hm : MapsInv g) {d : Nat} (hd : d ∈ g.mapped) : findMap6 g (g.v6 d) = some (.host d) :=
  hm.find6.2 ⟨hm.listed6 d hd, (hm.list6.wf _ (hm.listed6 d hd)).covers_addr⟩

/-- The slow path reports a lease exactly for the address of a mapped one. -/
theorem MapsInv.lease_of_resolve4 (hm : MapsInv g) {a : In4} {x : In6} {l : Option Nat} {cp : Bool}
    (hr : resolve4 g a = .ok ⟨x, l, cp⟩) {d : Nat} : l = some d ↔ d ∈ g.mapped ∧ a = g.v4 d := by
  have hd4 : d ∈ g.mapped → a = g.v4 d → l = some d := by
    rintro hd rfl
    rw [resolve4, hm.find4_lease hd] at hr
    cases hr
    rfl
  constructor
  · rintro rfl
    cases resolve4_eq_ok.1 hr with
    | @host _ hf =>
      have hmem := hm.mem4 hf
      have hd := hm.host4 d hmem.1
      refine ⟨hd, ((hm.list4.wf _ hmem.1).covers_host ?_).1 hmem.2⟩
      rw [Gcfg.map4, (hm.host_ok d (Or.inl hd)).map4]
  · rintro ⟨hd, ha⟩
    exact hd4 hd ha

/-- No lease is both mapped and dormant. -/
theorem RunsInv.not_dormant {p : DynamicPool} (hp : RunsInv g p) {d : Nat} (hd : d ∈ p.mappedList) :
    d ∉ p.dormantList := fun hd' => (List.nodup_append.1 hp.nodup_leases).2.2 d hd d hd' rfl

theorem Base.not_dormant (h : Base g) {d : Nat} (hd : d ∈ g.mapped) : d ∉ g.dormant := by
  unfold Gcfg.mapped at hd
  unfold Gcfg.dormant
  cases hp : g.dynamicPool with
  | none => simp
  | some p =>
    rw [hp] at hd
    exact (h.runs p hp).not_dormant hd

theorem Wf.not_dormant (h : Wf g) {d : Nat} (hd : d ∈ g.mapped) : d ∉ g.dormant := h.base.not_dormant hd

theorem Inv.not_dormant (h : Inv g) {d : Nat} (hd : d ∈ g.mapped) : d ∉ g.dormant := h.wf.not_dormant hd

/-- Distinct mapped leases have distinct IPv4 addresses. -/
theorem MapsInv.v4_inj (hm : MapsInv g) {d e : Nat} (hd : d ∈ g.mapped) (he : e ∈ g.mapped) (h : g.v4 d = g.v4 e) :
    d = e := by
  have h1 := hm.find4_lease hd
  rw [h, hm.find4_lease he] at h1
  cases h1
  rfl

private theorem link_filePair (h : Inv g) {a : In4} {x : In6} {l : Option Nat}
    (hr : resolve4 g a = .ok ⟨x, l, true⟩) : LinkInv (filePair g a x l) := by
  have hi := inserted_cacheInsert h.cache a x
  have hl := fun d => h.maps.lease_of_resolve4 hr (d := d)
  have huniq : ∀ c ∈ g.cacheActive, (g.entries c).addr4 = a → (g.entries c).addr6 = x := by
    intro c hc h4
    obtain ⟨l', hl'⟩ := h.coherent a _ ⟨c, hc, h4, rfl⟩
    rw [hr] at hl'
    cases hl'
    rfl
  -- an entry of another address is active, and flagged, as before
  have hother : ∀ c (b : In4), b ≠ a → (c ∈ (cacheInsert g a x (hashIp4 g a) (hashIp6 g x)).2.cacheActive ∧
      ((cacheInsert g a x (hashIp4 g a) (hashIp6 g x)).2.entries c).addr4 = b ↔
      c ∈ g.cacheActive ∧ (g.entries c).addr4 = b) := by
    intro c b hb
    constructor
    · rintro ⟨hc, h4⟩
      rcases (hi.active c).1 hc with hc | hc
      · exact ⟨hc, (hi.old c hc).1.symm.trans h4⟩
      · exact absurd (h4.symm.trans (hi.entry c hc).2.1) hb
    · rintro ⟨hc, h4⟩
      exact ⟨(hi.active c).2 (Or.inl hc), (hi.old c hc).1.trans h4⟩
  cases l with
  | none =>
    have hne : ∀ d ∈ g.mapped, g.v4 d ≠ a := by
      intro d hd he
      have := (hl d).2 ⟨hd, he.symm⟩
      cases this
    refine ⟨?_, ?_, ?_⟩
    · intro d hd c
      have hd' : d ∈ g.mapped := by rw [← hi.same.mapped]; exact hd
      change ((cacheInsert g a x (hashIp4 g a) (hashIp6 g x)).2.hosts d).cacheEntry = some c ↔ _
      rw [hi.hosts, h.link.link d hd' c]
      have hv : (filePair g a x none).v4 d = g.v4 d := hi.same.v4 d
      rw [hv]
      exact (hother c (g.v4 d) (hne d hd')).symm
    · intro d hd c hc
      have hd' : d ∈ g.mapped := by rw [← hi.same.mapped]; exact hd
      have hc' : (g.hosts d).cacheEntry = some c := by rw [← hi.hosts]; exact hc
      exact ((hi.old c ((h.link.link d hd' c).1 hc').1).2).trans (h.link.flag d hd' c hc')
    · intro d hd
      have hd' : d ∈ g.dormant := by rw [← hi.same.dormant]; exact hd
      change ((cacheInsert g a x (hashIp4 g a) (hashIp6 g x)).2.hosts d).cacheEntry = none
      rw [hi.hosts]
      exact h.link.dormant d hd'
  | some e =>
    obtain ⟨he, hae⟩ := (hl e).1 rfl
    have hne : ∀ d ∈ g.mapped, d ≠ e → g.v4 d ≠ a := fun d hd hde hv =>
      hde (h.maps.v4_inj hd he (hv.trans hae))
    have hf := filePair_frame (g := g) a x (some e)
    have hm := hi.same.trans hf.1
    -- the pointers and the flags after the call
    have hptr : ∀ d, ((filePair g a x (some e)).hosts d).cacheEntry =
        if d = e then (cacheInsert g a x (hashIp4 g a) (hashIp6 g x)).1 else (g.hosts d).cacheEntry := by
      intro d
      rw [← hi.hosts]
      exact cacheEntry_pointLease e _ d
    have hflag : ∀ c, (cacheInsert g a x (hashIp4 g a) (hashIp6 g x)).1 = some c →
        ((filePair g a x (some e)).entries c).repAgeout = true := by
      intro c hc
      unfold filePair
      simp only [hc]
      exact repAgeout_pointLease e c
    refine ⟨?_, ?_, ?_⟩
    · intro d hd c
      have hd' : d ∈ g.mapped := by rw [← hm.mapped]; exact hd
      rw [hptr, hf.2.cacheActive, hf.2.addr4, hm.v4]
      by_cases hde : d = e
      · subst hde
        rw [if_pos rfl, ← hae]
        constructor
        · intro hc
          exact ⟨(hi.entry c hc).1, (hi.entry c hc).2.1⟩
        · rintro ⟨hc, h4⟩
          rcases (hi.active c).1 hc with hold | hc
          · have h4' : (g.entries c).addr4 = a := (hi.old c hold).1.symm.trans h4
            have hpair : Cached g a x := ⟨c, hold, h4', huniq c hold h4'⟩
            cases hr1 : (cacheInsert g a x (hashIp4 g a) (hashIp6 g x)).1 with
            | none => exact absurd hpair (hi.none hr1).1
            | some c1 =>
              have h1 := hi.entry c1 hr1
              obtain ⟨c2, hc2, h42, h62⟩ := (hi.cached a x).2 (Or.inl hpair)
              have hx : ((cacheInsert g a x (hashIp4 g a) (hashIp6 g x)).2.entries c).addr6 = x := by
                have hcc : Cached (cacheInsert g a x (hashIp4 g a) (hashIp6 g x)).2 a
                    ((cacheInsert g a x (hashIp4 g a) (hashIp6 g x)).2.entries c).addr6 := ⟨c, hc, h4, rfl⟩
                rcases (hi.cached _ _).1 hcc with ⟨c3, hc3, h43, h63⟩ | ⟨-, -, h63⟩
                · rw [← h63]
                  exact huniq c3 hc3 h43
                · exact h63
              rw [hi.cache.unique c hc c1 h1.1 (h4.trans h1.2.1.symm) (hx.trans h1.2.2.symm)]
          · exact hc
      · rw [if_neg hde, h.link.link d hd' c]
        exact (hother c (g.v4 d) (hne d hd' hde)).symm
    · intro d hd c
      have hd' : d ∈ g.mapped := by rw [← hm.mapped]; exact hd
      rw [hptr]
      by_cases hde : d = e
      · rw [if_pos hde]
        exact hflag c
      · rw [if_neg hde]
        intro hc
        exact repAgeout_pointLease_mono _ _ (((hi.old c ((h.link.link d hd' c).1 hc).1).2).trans
            (h.link.flag d hd' c hc))
    · intro d hd
      have hd' : d ∈ g.dormant := by rw [← hm.dormant]; exact hd
      rw [hptr, if_neg]
      · exact h.link.dormant d hd'
      · rintro rfl
        exact h.not_dormant he hd'

/-- Filing a pair that the slow path finds keeps the invariant. -/
theorem Inv.filePair (h : Inv g) {a : In4} {x : In6} {l : Option Nat} (hr : resolve4 g a = .ok ⟨x, l, true⟩) :
    Inv (filePair g a x l) where
  maps := (sameMaps_filePair h.cache a x l).mapsInv h.maps
  pool p hp := (sameMaps_filePair h.cache a x l).poolInv
    (h.pool p ((sameMaps_filePair h.cache a x l).dynamicPool ▸ hp))
  valid := (sameMaps_filePair h.cache a x l).leasesValid h.valid
  cache := h.cache.filePair a x l
  coherent a' x' hc := by
    rw [(sameMaps_filePair h.cache a x l).resolve4]
    rcases (cached_filePair h.cache a x l a' x').1 hc with hc | ⟨-, rfl, rfl⟩
    · exact h.coherent a' x' hc
    · exact ⟨l, hr⟩
  link := link_filePair h hr

/-- Publishing keeps the invariant when the pair, if it is to be cached, is what the IPv4 slow path finds. -/
theorem Inv.publish (h : Inv g) {a : In4} {x : In6} {l : Option Nat} {cp : Bool}
    (hr : cp = true → resolve4 g a = .ok ⟨x, l, true⟩) : Inv (publish g a x l cp) := by
  unfold Tayga.publish
  simp only []
  split
  · rename_i hc
    refine (h.useLease l).filePair ?_
    rw [(sameMaps_useLease l).resolve4]
    exact hr hc.2
  · exact h.useLease l

theorem sameMaps_publish (hc : CacheInv g) (a : In4) (x : In6) (l : Option Nat) (cp : Bool) :
    SameMaps g (publish g a x l cp) := by
  unfold publish
  simp only []
  have hc' := (samePairs_useLease l).cacheInv (sameMaps_useLease l) hc
  split
  · exact (sameMaps_useLease l).trans (sameMaps_filePair hc' a x l)
  · exact sameMaps_useLease l

theorem CacheInv.publish (hc : CacheInv g) (a : In4) (x : In6) (l : Option Nat) (cp : Bool) :
    CacheInv (publish g a x l cp) := by
  unfold Tayga.publish
  simp only []
  have hc' := (samePairs_useLease l).cacheInv (sameMaps_useLease l) hc
  split
  · exact hc'.filePair a x l
  · exact hc'

theorem Base.publish (h : Base g) (a : In4) (x : In6) (l : Option Nat) (cp : Bool) : Base (publish g a x l cp) :=
  h.frame (sameMaps_publish h.cache a x l cp) (h.cache.publish a x l cp)

/-- A publication adds at most the published pair. -/
theorem cached_publish (hc : CacheInv g) (a : In4) (x : In6) (l : Option Nat) (cp : Bool) (a' : In4) (x' : In6) :
    Cached (publish g a x l cp) a' x' ↔
      Cached g a' x' ∨ ((g.cacheSize ≠ 0 ∧ cp = true ∧ g.cachePool ≠ []) ∧ a' = a ∧ x' = x) := by
  unfold publish
  simp only []
  have hs := samePairs_useLease (g := g) l
  have hm := sameMaps_useLease (g := g) l
  rw [hm.cacheSize]
  split
  · rename_i h
    rw [cached_filePair (hs.cacheInv hm hc), hs.cached, hs.cachePool]
    simp [h.1, h.2]
  · rename_i h
    rw [hs.cached]
    constructor
    · exact Or.inl
    · rintro (hca | ⟨⟨h1, h2, -⟩, -, -⟩)
      · exact hca
      · exact absurd ⟨h1, h2⟩ h

/-- The slow path of `map_ip4_to_ip6` keeps the invariant. -/
theorem Inv.slow4 (h : Inv g) (a : In4) : Inv (slow4 g a).2 := by
  unfold Tayga.slow4
  cases hr : resolve4 g a with
  | error e => exact h
  | ok f =>
    refine h.publish fun hcp => ?_
    rw [hr, ← hcp]

theorem Base.slow4 (h : Base g) (a : In4) : Base (slow4 g a).2 := by
  unfold Tayga.slow4
  cases resolve4 g a with
  | error e => exact h
  | ok f => exact h.publish a f.addr f.lease f.cachePair

/-- `map_ip4_to_ip6` keeps the invariant. -/
theorem Inv.mapIp4ToIp6 (h : Inv g) (a : In4) : Inv (mapIp4ToIp6 g a).2 := by
  rcases mapIp4ToIp6_cases (g := g) a with ⟨c, -, -, e⟩ | ⟨-, e⟩ <;> rw [e]
  · exact h.touch c
  · exact h.slow4 a

end Tayga
