import Tayga.PoolProofs

/-!
# Linking a lease

Moving a lease to the mapped list links both its halves.  The lists stay well formed whatever is in them
(`Base.moveToMapped`); the whole invariant is kept unless another entry or a cached pair answers for the lease's address
already (`Shadowed`).
-/

namespace Tayga

open FreeRuns FirstMatch

variable {g : Gcfg} {p : DynamicPool}

/-! ### Moving a lease to the mapped list -/

/-- The lease would answer for an address that another entry, or a cached pair, answers for already. -/
def Shadowed (g : Gcfg) (d : Nat) : Prop :=
  (∃ m ∈ g.map4List, (g.map4 m).prefixLen = 32 ∧ (g.map4 m).addr = g.v4 d) ∨
  ∃ c ∈ g.cacheActive, (g.entries c).addr4 = g.v4 d

/-- The state after the IPv4 list has taken an entry. -/
def link4 (g : Gcfg) (m : MapRef) : Gcfg := { g with
  map4List := insertBefore (fun s => (g.map4 s).prefixLen < (g.map4 m).prefixLen) m g.map4List }

/-- The state after the IPv6 list has taken an entry. -/
def link6 (g : Gcfg) (m : MapRef) : Gcfg := { g with
  map6List := insertBefore (fun s => (g.map6 s).prefixLen < (g.map6 m).prefixLen) m g.map6List }

theorem insertMap4_error {m s : MapRef} (h : insertMap4 g m = .error s) :
    s ∈ g.map4List ∧ (g.map4 s).same (g.map4 m) = true := by
  unfold insertMap4 at h
  split at h
  · rename_i hf
    obtain rfl := Except.error.inj h
    exact ⟨List.mem_of_find?_eq_some hf, @List.find?_some _ (fun n => (g.map4 n).same (g.map4 m)) _ _ hf⟩
  · cases h

theorem insertMap6_error {m s : MapRef} (h : insertMap6 g m = .error s) :
    s ∈ g.map6List ∧ (g.map6 s).clash (g.map6 m) = true := by
  unfold insertMap6 at h
  split at h
  · rename_i hf
    obtain rfl := Except.error.inj h
    exact ⟨List.mem_of_find?_eq_some hf, @List.find?_some _ (fun n => (g.map6 n).clash (g.map6 m)) _ _ hf⟩
  · cases h

/-- `insert_map4` takes an entry exactly when no entry of the list is the same network. -/
theorem insertMap4_eq_ok {m : MapRef} {g' : Gcfg} :
    insertMap4 g m = .ok g' ↔ (∀ s ∈ g.map4List, (g.map4 s).same (g.map4 m) = false) ∧ g' = link4 g m := by
  cases hf : g.map4List.find? fun s => (g.map4 s).same (g.map4 m) with
  | none =>
    have hn : ∀ s ∈ g.map4List, (g.map4 s).same (g.map4 m) = false := fun s hs => by
      simpa using List.find?_eq_none.1 hf s hs
    have hi : insertMap4 g m = .ok (link4 g m) := by
      simp only [insertMap4, hf]
      rfl
    rw [hi, Except.ok.injEq]
    exact ⟨fun h => ⟨hn, h.symm⟩, fun h => h.2.symm⟩
  | some s =>
    have hi : insertMap4 g m = .error s := by simp only [insertMap4, hf]
    obtain ⟨hs, hsame⟩ := insertMap4_error hi
    rw [hi]
    refine iff_of_false nofun fun h => ?_
    rw [h.1 s hs] at hsame
    cases hsame

/-- `insert_map6` takes an entry exactly when no entry of the list overlaps it. -/
theorem insertMap6_eq_ok {m : MapRef} {g' : Gcfg} :
    insertMap6 g m = .ok g' ↔ (∀ s ∈ g.map6List, (g.map6 s).clash (g.map6 m) = false) ∧ g' = link6 g m := by
  cases hf : g.map6List.find? fun s => (g.map6 s).clash (g.map6 m) with
  | none =>
    have hn : ∀ s ∈ g.map6List, (g.map6 s).clash (g.map6 m) = false := fun s hs => by
      simpa using List.find?_eq_none.1 hf s hs
    have hi : insertMap6 g m = .ok (link6 g m) := by
      simp only [insertMap6, hf]
      rfl
    rw [hi, Except.ok.injEq]
    exact ⟨fun h => ⟨hn, h.symm⟩, fun h => h.2.symm⟩
  | some s =>
    have hi : insertMap6 g m = .error s := by simp only [insertMap6, hf]
    obtain ⟨hs, hclash⟩ := insertMap6_error hi
    rw [hi]
    refine iff_of_false nofun fun h => ?_
    rw [h.1 s hs] at hclash
    cases hclash

theorem tryInsertMap4_eq {m : MapRef} (h : ∀ s ∈ g.map4List, (g.map4 s).same (g.map4 m) = false) :
    tryInsertMap4 g m = link4 g m := by
  rw [tryInsertMap4, insertMap4_eq_ok.2 ⟨h, rfl⟩]

theorem tryInsertMap6_eq {m : MapRef} (h : ∀ s ∈ g.map6List, (g.map6 s).clash (g.map6 m) = false) :
    tryInsertMap6 g m = link6 g m := by
  rw [tryInsertMap6, insertMap6_eq_ok.2 ⟨h, rfl⟩]

/-- The state after both lists and the list of the leases in use have taken the lease. -/
def linked (g : Gcfg) (d : Nat) : Gcfg := { link6 (link4 g (.host d)) (.host d) with
  dynamicPool := g.dynamicPool.map fun p => { p with
    dormantList := p.dormantList.filter (· ≠ d)
    mappedList := d :: p.mappedList.filter (· ≠ d) } }

theorem map6_link4 (m : MapRef) : (link4 g m).map6 = g.map6 := by
  funext r
  cases r <;> rfl

theorem map4_linked (d : Nat) : (linked g d).map4 = g.map4 := by
  funext r
  cases r with
  | static i => rfl
  | pool =>
    simp only [Gcfg.map4, linked]
    cases g.dynamicPool <;> rfl
  | host e => rfl

private theorem map6_linked (d : Nat) : (linked g d).map6 = g.map6 := by
  funext r
  cases r <;> rfl

private theorem run_linked (d : Nat) : (linked g d).run = g.run := by
  funext r
  cases r with
  | head =>
    simp only [Gcfg.run, Gcfg.freeAddr, linked]
    cases g.dynamicPool <;> rfl
  | host e => rfl

theorem moveToMapped_eq {d : Nat} (h4 : ∀ s ∈ g.map4List, (g.map4 s).same (g.map4 (.host d)) = false)
    (h6 : ∀ s ∈ g.map6List, (g.map6 s).clash (g.map6 (.host d)) = false) : moveToMapped g d = linked g d := by
  unfold moveToMapped
  rw [tryInsertMap4_eq h4]
  simp only []
  rw [tryInsertMap6_eq (by rw [map6_link4]; exact h6)]
  rfl

/-- What the slow path finds carries over to a state in which the entry of the address, and the static entries found
for IPv6 addresses, are the same. -/
theorem Found4.transfer {g' : Gcfg} {a : In4} {f : Found In6} (h : Found4 g a f) (he : g'.endian = g.endian)
    (hw : g'.wkpfStrict = g.wkpfStrict) (hl : g'.localAddr6 = g.localAddr6)
    (h4 : findMap4 g' a = findMap4 g a) (hs : ∀ i, findMap4 g a = some (.static i) → g'.statics i = g.statics i)
    (h6 : ∀ i y, findMap6 g y = some (.static i) → findMap6 g' y = some (.static i))
    (hv : ∀ d, findMap4 g a = some (.host d) → g'.v6 d = g.v6 d) : Found4 g' a f := by
  cases h with
  | @static i hf ht hb =>
    have e := hs i hf
    have := Found4.static (g := g') (a := a) (i := i) (h4.trans hf) (by rw [e]; exact ht) fun h0 => by
      rw [e] at h0 ⊢
      obtain ⟨h1, h2, h3⟩ := hb h0
      exact ⟨h1, by rw [hl]; exact h2, h6 i _ h3⟩
    rwa [e] at this
  | @rfc6052 i x hf ht hx =>
    have e := hs i hf
    refine .rfc6052 (h4.trans hf) (by rw [e]; exact ht) ?_
    rw [e, ← hx]
    simp only [appendToPrefix, he, hw]
  | @host d hf =>
    rw [← hv d hf]
    exact .host (h4.trans hf)

/-- When the IPv6 list takes the lease, the IPv4 list takes it too or stays as it is. -/
theorem moveToMapped_cases {d : Nat} (h6 : ∀ s ∈ g.map6List, (g.map6 s).clash (g.map6 (.host d)) = false) :
    moveToMapped g d = linked g d ∨ moveToMapped g d = { linked g d with map4List := g.map4List } := by
  unfold moveToMapped
  have hc : tryInsertMap4 g (.host d) = link4 g (.host d) ∨ tryInsertMap4 g (.host d) = g := by
    unfold tryInsertMap4 insertMap4
    cases g.map4List.find? fun s => (g.map4 s).same (g.map4 (.host d)) with
    | none => exact Or.inl rfl
    | some s => exact Or.inr rfl
  rcases hc with e | e <;> rw [e] <;> simp only []
  · rw [tryInsertMap6_eq (by rw [map6_link4]; exact h6)]
    exact Or.inl rfl
  · rw [tryInsertMap6_eq h6]
    exact Or.inr rfl

/-! ### The searches after the move -/

theorem mapped_of_pool (hp : g.dynamicPool = some p) : g.mapped = p.mappedList := by rw [Gcfg.mapped, hp]

theorem dormant_of_pool (hp : g.dynamicPool = some p) : g.dormant = p.dormantList := by rw [Gcfg.dormant, hp]

/-- Where there is a lease there is a pool. -/
theorem exists_pool {d : Nat} (hd : d ∈ g.mapped ∨ d ∈ g.dormant) : ∃ p, g.dynamicPool = some p := by
  cases hp : g.dynamicPool with
  | none => simp [Gcfg.mapped, Gcfg.dormant, hp] at hd
  | some p => exact ⟨p, rfl⟩

private theorem mem_mapped_linked {d e : Nat} (hp : g.dynamicPool = some p) :
    e ∈ (linked g d).mapped ↔ e = d ∨ e ∈ g.mapped := by
  have hp' : (linked g d).dynamicPool = some { p with
      dormantList := p.dormantList.filter (· ≠ d)
      mappedList := d :: p.mappedList.filter (· ≠ d) } := by
    simp only [linked, hp, Option.map_some]
  rw [mapped_of_pool hp', mapped_of_pool hp, List.mem_cons, List.mem_filter, decide_eq_true_eq]
  by_cases he : e = d <;> simp [he]

theorem mem_dormant_linked {d e : Nat} (hp : g.dynamicPool = some p) :
    e ∈ (linked g d).dormant ↔ e ∈ g.dormant ∧ e ≠ d := by
  have hp' : (linked g d).dynamicPool = some { p with
      dormantList := p.dormantList.filter (· ≠ d)
      mappedList := d :: p.mappedList.filter (· ≠ d) } := by
    simp only [linked, hp, Option.map_some]
  rw [dormant_of_pool hp', dormant_of_pool hp, List.mem_filter, decide_eq_true_eq]

/-- The lease is idle, and no entry covers its IPv6 address. -/
structure Idle (g : Gcfg) (d : Nat) : Prop where
  dormant : d ∈ g.dormant
  uncovered : findMap6 g (g.v6 d) = none

namespace Idle

variable {d : Nat}

private theorem not_mapped (hl : Idle g d) (h : Base g) : d ∉ g.mapped := fun hd => h.not_dormant hd hl.dormant

private theorem hostOk (hl : Idle g d) (h : Base g) : HostOk (g.hosts d) := h.tables.host_ok d (Or.inr hl.dormant)

theorem wf4 (hl : Idle g d) (h : Base g) : (g.map4 (.host d)).Wf := by
  have he := (hl.hostOk h).map4
  refine ⟨?_, ?_, ?_⟩ <;> rw [Gcfg.map4, he]
  exact BitPrefix.normal_full _

theorem wf6 (hl : Idle g d) (h : Base g) : (g.map6 (.host d)).Wf := by
  have he := (hl.hostOk h).map6
  refine ⟨?_, ?_, ?_⟩ <;> rw [Gcfg.map6, he]
  exact BitPrefix.normal_full _

theorem len4 (hl : Idle g d) (h : Base g) : (g.map4 (.host d)).prefixLen = 32 := by
  rw [Gcfg.map4, (hl.hostOk h).map4]

theorem len6 (hl : Idle g d) (h : Base g) : (g.map6 (.host d)).prefixLen = 128 := by
  rw [Gcfg.map6, (hl.hostOk h).map6]

theorem no_clash (hl : Idle g d) (h : Base g) : ∀ s ∈ g.map6List, (g.map6 s).clash (g.map6 (.host d)) = false :=
  h.tables.list6.no_clash_host (hl.wf6 h) (hl.len6 h) hl.uncovered

theorem list6 (hl : Idle g d) (h : Base g) : ListWf6 g.map6 (linked g d).map6List :=
  h.tables.list6.insert (fun hm => hl.not_mapped h (h.tables.host6 d hm)) (hl.wf6 h) (hl.no_clash h)

/-- Every other IPv6 address is answered for as before. -/
theorem findMap6_other (hl : Idle g d) (h : Base g) {y : In6} (hy : y ≠ g.v6 d) :
    findMap6 (linked g d) y = findMap6 g y := by
  rw [findMap6_eq, map6_linked]
  refine find?_insertBefore_of_neg ?_ _
  rw [Bool.eq_false_iff]
  exact fun hc => hy (((hl.wf6 h).covers_host (hl.len6 h)).1 hc)

end Idle

/-- The lease can be linked: nothing answers for its IPv4 address in its place. -/
structure Linkable (g : Gcfg) (d : Nat) : Prop extends Idle g d where
  clear : ¬ Shadowed g d

namespace Linkable

variable {d : Nat}

theorem not_same (hl : Linkable g d) (h : Base g) : ∀ s ∈ g.map4List, (g.map4 s).same (g.map4 (.host d)) = false := by
  intro s hs
  rw [Bool.eq_false_iff]
  intro hsame
  simp only [Map4.same, Bool.and_eq_true, decide_eq_true_eq, hl.len4 h] at hsame
  exact hl.clear (Or.inl ⟨s, hs, hsame⟩)

theorem list4 (hl : Linkable g d) (h : Base g) : ListWf4 g.map4 (linked g d).map4List :=
  h.tables.list4.insert (fun hm => hl.not_mapped h (h.tables.host4 d hm)) (hl.wf4 h) (hl.not_same h)

theorem mem4 {m : MapRef} : m ∈ (linked g d).map4List ↔ m = .host d ∨ m ∈ g.map4List := mem_insertBefore

theorem mem6 {m : MapRef} : m ∈ (linked g d).map6List ↔ m = .host d ∨ m ∈ g.map6List := by
  have : (linked g d).map6List =
      insertBefore (fun s => (g.map6 s).prefixLen < (g.map6 (.host d)).prefixLen) (.host d) g.map6List := by
    simp only [linked, link6, map6_link4]
    rfl
  rw [this]
  exact mem_insertBefore

/-- The lease answers for its own address. -/
theorem findMap4_self (hl : Linkable g d) (h : Base g) : findMap4 (linked g d) (g.v4 d) = some (.host d) := by
  rw [findMap4_eq, map4_linked]
  exact (hl.list4 h).find_host (mem4.2 (Or.inl rfl)) (hl.len4 h)

/-- Every other IPv4 address is answered for as before. -/
theorem findMap4_other (hl : Linkable g d) (h : Base g) {a : In4} (ha : a ≠ g.v4 d) :
    findMap4 (linked g d) a = findMap4 g a := by
  rw [findMap4_eq, map4_linked]
  refine find?_insertBefore_of_neg ?_ _
  rw [Bool.eq_false_iff]
  exact fun hc => ha (((hl.wf4 h).covers_host (hl.len4 h)).1 hc)

/-- No IPv6 address loses its entry. -/
private theorem findMap6_mono (hl : Linkable g d) (h : Base g) {y : In6} {m : MapRef} (hf : findMap6 g y = some m) :
    findMap6 (linked g d) y = some m := by
  have hm := h.tables.find6.1 hf
  rw [findMap6_eq, map6_linked]
  exact (hl.list6 h).find_eq_some.2 ⟨mem6.2 (Or.inr hm.1), hm.2⟩

theorem tablesInv (hl : Linkable g d) (h : Base g) (hp : g.dynamicPool = some p) : TablesInv (linked g d) where
  list4 := by rw [map4_linked]; exact hl.list4 h
  list6 := by rw [map6_linked]; exact hl.list6 h
  static_lt i hi := h.tables.static_lt i (by simpa [mem4] using hi)
  static_ok i hi := h.tables.static_ok i (by simpa [mem4] using hi)
  valid6 i hi := h.tables.valid6 i (by simpa [mem6] using hi)
  pair64 i hi := mem4.2 (Or.inr (h.tables.pair64 i (by simpa [mem6] using hi)))
  pair46 i hi := by
    rcases h.tables.pair46 i (by simpa [mem4] using hi) with h6 | hown
    · exact Or.inl (mem6.2 (Or.inr h6))
    · exact Or.inr ⟨hown.map4, hown.map6, hown.origin⟩
  own := by
    obtain ⟨i, hi, hown, h6 | hd⟩ := h.tables.own
    · exact ⟨i, mem4.2 (Or.inr hi), ⟨hown.map4, hown.map6, hown.origin⟩, Or.inl (mem6.2 (Or.inr h6))⟩
    · obtain ⟨j, hj, hd⟩ := hd
      exact ⟨i, mem4.2 (Or.inr hi), ⟨hown.map4, hown.map6, hown.origin⟩, Or.inr ⟨j, mem6.2 (Or.inr hj), hd⟩⟩
  pool4 := by
    rw [mem4]
    simpa [linked] using h.tables.pool4
  pool6 := by
    rw [mem6]
    simpa using h.tables.pool6
  host4 e := by
    rw [mem4, mem_mapped_linked hp, MapRef.host.injEq]
    exact Or.imp_right (h.tables.host4 e)
  host6 e := by
    rw [mem6, mem_mapped_linked hp, MapRef.host.injEq]
    exact Or.imp_right (h.tables.host6 e)
  host_ok e he := by
    rw [mem_mapped_linked hp, mem_dormant_linked hp] at he
    refine h.tables.host_ok e ?_
    rcases he with (rfl | he) | he
    · exact Or.inr hl.dormant
    · exact Or.inl he
    · exact Or.inr he.1

theorem mapsInv (hl : Linkable g d) (h : Inv g) (hp : g.dynamicPool = some p) : MapsInv (linked g d) where
  toTablesInv := hl.tablesInv h.base hp
  listed4 e he := by
    rw [mem4, MapRef.host.injEq]
    exact ((mem_mapped_linked hp).1 he).imp_right (h.maps.listed4 e)
  listed6 e he := by
    rw [mem6, MapRef.host.injEq]
    exact ((mem_mapped_linked hp).1 he).imp_right (h.maps.listed6 e)

theorem poolInv (hl : Linkable g d) (h : Inv g) (hp : g.dynamicPool = some p) :
    PoolInv (linked g d) { p with
      dormantList := p.dormantList.filter (· ≠ d)
      mappedList := d :: p.mappedList.filter (· ≠ d) } := by
  have hd : d ∈ p.dormantList := by rw [← dormant_of_pool hp]; exact hl.dormant
  refine (h.pool p hp).regroup rfl rfl (run_linked d) ?_ ?_ rfl rfl rfl
  · intro e
    simp only [List.mem_cons, List.mem_filter, decide_eq_true_eq]
    by_cases he : e = d
    · simp [he, hd]
    · simp [he]
  · rw [List.cons_append, ← List.filter_append, List.nodup_cons]
    exact ⟨by simp, (h.pool p hp).nodup_leases.filter _⟩

/-- A result that was found for an address other than that of the lease is still found. -/
private theorem resolve4_mono (hl : Linkable g d) (h : Base g) {a : In4} (ha : a ≠ g.v4 d) {f : Found In6}
    (hr : resolve4 g a = .ok f) : resolve4 (linked g d) a = .ok f :=
  resolve4_eq_ok.2 ((resolve4_eq_ok.1 hr).transfer rfl rfl rfl (hl.findMap4_other h ha) (fun _ _ => rfl)
    (fun _ _ hf => hl.findMap6_mono h hf) (fun _ _ => rfl))

/-- Linking the lease keeps the invariant. -/
theorem inv (hl : Linkable g d) (h : Inv g) : Inv (linked g d) := by
  obtain ⟨p, hp⟩ := exists_pool (.inr hl.dormant)
  have hclear : ∀ c ∈ g.cacheActive, (g.entries c).addr4 ≠ g.v4 d := fun c hc h4 => hl.clear (Or.inr ⟨c, hc, h4⟩)
  refine ⟨hl.mapsInv h hp, ?_, ?_, ⟨h.cache.size, h.cache.nodup, h.cache.hash4, h.cache.hash6, h.cache.unique⟩, ?_, ?_⟩
  · intro p' hp'
    have e : (linked g d).dynamicPool = some { p with
        dormantList := p.dormantList.filter (· ≠ d)
        mappedList := d :: p.mappedList.filter (· ≠ d) } := by
      simp only [linked, hp, Option.map_some]
    rw [e] at hp'
    cases hp'
    exact hl.poolInv h hp
  · intro e he
    rw [mem_mapped_linked hp, mem_dormant_linked hp] at he
    refine h.valid e ?_
    rcases he with (rfl | he) | he
    · exact Or.inr hl.dormant
    · exact Or.inl he
    · exact Or.inr he.1
  · rintro a x ⟨c, hc, h4, h6⟩
    obtain ⟨l, hr⟩ := h.coherent a x ⟨c, hc, h4, h6⟩
    refine ⟨l, hl.resolve4_mono h.base ?_ hr⟩
    rintro rfl
    exact hclear c hc h4
  · refine ⟨?_, ?_, ?_⟩
    · intro e he c
      rcases (mem_mapped_linked hp).1 he with rfl | he
      · change (g.hosts e).cacheEntry = some c ↔ c ∈ g.cacheActive ∧ (g.entries c).addr4 = g.v4 e
        rw [h.link.dormant e hl.dormant]
        constructor
        · intro hn
          cases hn
        · rintro ⟨hc, h4⟩
          exact absurd h4 (hclear c hc)
      · exact h.link.link e he c
    · intro e he c hc
      rcases (mem_mapped_linked hp).1 he with rfl | he
      · have hc' : (g.hosts e).cacheEntry = some c := hc
        rw [h.link.dormant e hl.dormant] at hc'
        cases hc'
      · exact h.link.flag e he c hc
    · intro e he
      exact h.link.dormant e ((mem_dormant_linked hp).1 he).1

end Linkable

/-! ### Linking whatever is in the lists -/

/-- A change that leaves the static entries and the pool where they are keeps the tables when the lists are well formed
and the leases in them are in use. -/
theorem TablesInv.of_lists (h : TablesInv g) {g' : Gcfg} (he : g'.endian = g.endian) (hw : g'.wkpfStrict = g.wkpfStrict)
    (hl4 : g'.localAddr4 = g.localAddr4) (hl6 : g'.localAddr6 = g.localAddr6) (hs : g'.statics = g.statics)
    (hn : g'.nStatics = g.nStatics) (hp : g'.dynamicPool.isSome = g.dynamicPool.isSome)
    (list4 : ListWf4 g'.map4 g'.map4List) (list6 : ListWf6 g'.map6 g'.map6List)
    (m4 : ∀ m, (∀ d, m ≠ .host d) → (m ∈ g'.map4List ↔ m ∈ g.map4List))
    (m6 : ∀ m, (∀ d, m ≠ .host d) → (m ∈ g'.map6List ↔ m ∈ g.map6List))
    (host4 : ∀ d, .host d ∈ g'.map4List → d ∈ g'.mapped) (host6 : ∀ d, .host d ∈ g'.map6List → d ∈ g'.mapped)
    (host_ok : ∀ d, d ∈ g'.mapped ∨ d ∈ g'.dormant → HostOk (g'.hosts d)) : TablesInv g' := by
  have s4 : ∀ i, .static i ∈ g'.map4List ↔ .static i ∈ g.map4List := fun i => m4 _ (by simp)
  have s6 : ∀ i, .static i ∈ g'.map6List ↔ .static i ∈ g.map6List := fun i => m6 _ (by simp)
  have own : ∀ i, IsOwn g i → IsOwn g' i := fun i ho =>
    ⟨by rw [hs, hl4]; exact ho.map4, by rw [hs, hl6]; exact ho.map6, by rw [hs]; exact ho.origin⟩
  refine ⟨⟨list4, list6, ?_, ?_, ?_, ?_, ?_, ?_, ?_, host4, host6, host_ok⟩, ?_⟩
  · intro i hi
    rw [hn]
    exact h.static_lt i ((s4 i).1 hi)
  · intro i hi
    rw [hs]
    exact h.static_ok i ((s4 i).1 hi)
  · intro i hi
    rw [hs]
    exact h.valid6 i ((s6 i).1 hi)
  · exact fun i hi => (s4 i).2 (h.pair64 i ((s6 i).1 hi))
  · exact fun i hi => (h.pair46 i ((s4 i).1 hi)).imp (s6 i).2 (own i)
  · rw [m4 _ (by simp), hp]
    exact h.pool4
  · rw [m6 _ (by simp)]
    exact h.pool6
  · obtain ⟨i, hi, ho, h6 | ⟨j, hj, ht, hd⟩⟩ := h.own
    · exact ⟨i, (s4 i).2 hi, own i ho, Or.inl ((s6 i).2 h6)⟩
    · refine ⟨i, (s4 i).2 hi, own i ho, Or.inr ⟨j, (s6 j).2 hj, ?_⟩⟩
      simp only [hs, hl4, hl6, appendToPrefix, he, hw]
      exact ⟨ht, hd⟩

/-- `insert_map4` of a new entry leaves the list well formed, whether it takes the entry or not. -/
private theorem tryInsertMap4_spec {m : MapRef} (h : ListWf4 g.map4 g.map4List) (hm : m ∉ g.map4List)
    (hw : (g.map4 m).Wf) :
    ∃ l, tryInsertMap4 g m = { g with map4List := l } ∧ ListWf4 g.map4 l ∧ ∀ n, n ≠ m → (n ∈ l ↔ n ∈ g.map4List) := by
  cases hi : insertMap4 g m with
  | ok g' =>
    obtain ⟨hs, rfl⟩ := insertMap4_eq_ok.1 hi
    refine ⟨_, tryInsertMap4_eq hs, h.insert hm hw hs, fun n hn => ?_⟩
    rw [mem_insertBefore]
    exact or_iff_right hn
  | error s =>
    refine ⟨g.map4List, ?_, h, fun n _ => Iff.rfl⟩
    rw [tryInsertMap4, hi]

private theorem tryInsertMap6_spec {m : MapRef} (h : ListWf6 g.map6 g.map6List) (hm : m ∉ g.map6List)
    (hw : (g.map6 m).Wf) :
    ∃ l, tryInsertMap6 g m = { g with map6List := l } ∧ ListWf6 g.map6 l ∧ ∀ n, n ≠ m → (n ∈ l ↔ n ∈ g.map6List) := by
  cases hi : insertMap6 g m with
  | ok g' =>
    obtain ⟨hs, rfl⟩ := insertMap6_eq_ok.1 hi
    refine ⟨_, tryInsertMap6_eq hs, h.insert hm hw hs, fun n hn => ?_⟩
    rw [mem_insertBefore]
    exact or_iff_right hn
  | error s =>
    refine ⟨g.map6List, ?_, h, fun n _ => Iff.rfl⟩
    rw [tryInsertMap6, hi]

theorem HostOk.wf {h : MapDynamic} (hok : HostOk h) : h.map4.Wf ∧ h.map6.Wf := by
  refine ⟨⟨?_, ?_, ?_⟩, ⟨?_, ?_, ?_⟩⟩ <;> first | rw [hok.map4] | rw [hok.map6]
  · exact BitPrefix.normal_full _
  · exact BitPrefix.normal_full _

/-- Moving an idle lease to the mapped list, as the lists come out. -/
theorem moveToMapped_spec (h : Base g) {d : Nat} (hd : d ∈ g.dormant) : ∃ l4 l6, moveToMapped g d = { g with
      map4List := l4
      map6List := l6
      dynamicPool := g.dynamicPool.map fun p => { p with
        dormantList := p.dormantList.filter (· ≠ d)
        mappedList := d :: p.mappedList.filter (· ≠ d) } } ∧
    ListWf4 g.map4 l4 ∧ ListWf6 g.map6 l6 ∧ (∀ n, n ≠ .host d → (n ∈ l4 ↔ n ∈ g.map4List)) ∧
    ∀ n, n ≠ .host d → (n ∈ l6 ↔ n ∈ g.map6List) := by
  have hnot : d ∉ g.mapped := fun hm => h.not_dormant hm hd
  have hw := (h.tables.host_ok d (Or.inr hd)).wf
  obtain ⟨l4, e4, hw4, hm4⟩ := tryInsertMap4_spec h.tables.list4 (fun hm => hnot (h.tables.host4 d hm)) hw.1
  have e : ({ g with map4List := l4 } : Gcfg).map6 = g.map6 := by
    funext m
    cases m <;> rfl
  obtain ⟨l6, e6, hw6, hm6⟩ := tryInsertMap6_spec (g := { g with map4List := l4 }) (m := .host d)
    (by rw [e]; exact h.tables.list6) (fun hm => hnot (h.tables.host6 d hm)) hw.2
  rw [e] at hw6
  refine ⟨l4, l6, ?_, hw4, hw6, hm4, hm6⟩
  unfold moveToMapped
  rw [e4]
  simp only []
  rw [e6]

/-- Moving an idle lease to the mapped list keeps the base invariant. -/
theorem Base.moveToMapped (h : Base g) {d : Nat} (hd : d ∈ g.dormant) : Base (moveToMapped g d) := by
  obtain ⟨l4, l6, e, hw4, hw6, hm4, hm6⟩ := moveToMapped_spec h hd
  obtain ⟨p, hp⟩ := exists_pool (.inr hd)
  have hdp : d ∈ p.dormantList := by rwa [← dormant_of_pool hp]
  have emap : (Tayga.moveToMapped g d).mapped = d :: g.mapped.filter (· ≠ d) := by
    rw [e, Gcfg.mapped, Gcfg.mapped, hp]
    rfl
  have edor : (Tayga.moveToMapped g d).dormant = g.dormant.filter (· ≠ d) := by
    rw [e, Gcfg.dormant, Gcfg.dormant, hp]
    rfl
  have hmem : ∀ c, c ∈ (Tayga.moveToMapped g d).mapped ∨ c ∈ (Tayga.moveToMapped g d).dormant →
      c ∈ g.mapped ∨ c ∈ g.dormant := by
    intro c hc
    rw [emap, edor, List.mem_cons, List.mem_filter, List.mem_filter] at hc
    rcases hc with (rfl | hc) | hc
    · exact Or.inr hd
    · exact Or.inl hc.1
    · exact Or.inr hc.1
  have hh : (Tayga.moveToMapped g d).hosts = g.hosts := by rw [e]
  have f4 : (Tayga.moveToMapped g d).map4 = g.map4 := by
    rw [e]
    funext m
    cases m with
    | pool =>
      simp only [Gcfg.map4, hp]
      rfl
    | _ => rfl
  have f6 : (Tayga.moveToMapped g d).map6 = g.map6 := by
    rw [e]
    funext m
    cases m <;> rfl
  refine ⟨?_, ?_, ?_, ?_⟩
  · refine h.tables.of_lists (by rw [e]) (by rw [e]) (by rw [e]) (by rw [e]) (by rw [e]) (by rw [e])
      (by rw [e, hp]; rfl) (by rw [f4, e]; exact hw4) (by rw [f6, e]; exact hw6)
      (fun m hm => by rw [e]; exact hm4 m (hm d)) (fun m hm => by rw [e]; exact hm6 m (hm d)) ?_ ?_ fun c hc => ?_
    · intro c hc
      rw [emap, List.mem_cons, List.mem_filter, decide_eq_true_eq]
      by_cases hcd : c = d
      · exact Or.inl hcd
      · rw [e] at hc
        exact Or.inr ⟨h.tables.host4 c ((hm4 _ (by simpa using hcd)).1 hc), hcd⟩
    · intro c hc
      rw [emap, List.mem_cons, List.mem_filter, decide_eq_true_eq]
      by_cases hcd : c = d
      · exact Or.inl hcd
      · rw [e] at hc
        exact Or.inr ⟨h.tables.host6 c ((hm6 _ (by simpa using hcd)).1 hc), hcd⟩
    · rw [hh]
      exact h.tables.host_ok c (hmem c hc)
  · intro p' hp'
    have hp'' : some { p with
        dormantList := p.dormantList.filter (· ≠ d)
        mappedList := d :: p.mappedList.filter (· ≠ d) } = some p' := by
      rw [← hp', e, hp]
      rfl
    obtain rfl := Option.some.inj hp''
    refine (h.runs p hp).regroup rfl rfl ?_ ?_ ?_ hh (by rw [e])
    · rw [e]
      funext r
      cases r with
      | head =>
        simp only [Gcfg.run, Gcfg.freeAddr, hp]
        rfl
      | host c => rfl
    · intro c
      simp only [List.mem_cons, List.mem_filter, decide_eq_true_eq]
      by_cases hc : c = d
      · simp [hc, hdp]
      · simp [hc]
    · rw [List.cons_append, ← List.filter_append, List.nodup_cons]
      exact ⟨by simp, (h.runs p hp).nodup_leases.filter _⟩
  · intro c hc
    have hv := h.valid c (hmem c hc)
    unfold Gcfg.v6 at hv ⊢
    rw [hh]
    exact hv
  · rw [e]
    exact ⟨h.cache.size, h.cache.nodup, h.cache.hash4, h.cache.hash6, h.cache.unique⟩

end Tayga
