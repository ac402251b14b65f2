import Tayga.Config
import Tayga.Linking

/-!
# Static entries come and go

Giving a static entry the next index and linking both its halves keeps the lists in order when no entry conflicts with
it (`ListsInv.linkStatic`).  Leases, pool and cache do not depend on the static entries (`Wf.relist`).
-/

namespace Tayga

open FirstMatch

variable {g : Gcfg} {s : MapStatic} {exempt : Nat → Prop}

/-! ### Linking an entry -/

/-- The state after a new static entry has been given the next index and its IPv4 half linked. -/
def half (g : Gcfg) (s : MapStatic) : Gcfg := link4 (newStatic g s).2 (.static g.nStatics)

/-- The state after both halves of a new static entry have been linked. -/
def withStatic (g : Gcfg) (s : MapStatic) : Gcfg := link6 (half g s) (.static g.nStatics)

/-- A static entry that can be linked. -/
structure CanLink (g : Gcfg) (s : MapStatic) : Prop where
  ok : StaticOk s
  valid : s.map6.prefixLen ≠ 0 → validateIp6Addr s.map6.addr = none
  free4 : ∀ m ∈ g.map4List, (g.map4 m).same s.map4 = false
  free6 : ∀ m ∈ g.map6List, (g.map6 m).clash s.map6 = false

theorem statics_half_self : (half g s).statics g.nStatics = s := Function.update_self _ _ _

theorem statics_half_of_ne {i : Nat} (h : i ≠ g.nStatics) : (half g s).statics i = g.statics i :=
  Function.update_of_ne h _ _

theorem map4_half_self : (half g s).map4 (.static g.nStatics) = s.map4 := congrArg MapStatic.map4 statics_half_self

theorem map6_half_self : (half g s).map6 (.static g.nStatics) = s.map6 := congrArg MapStatic.map6 statics_half_self

theorem map4_half_of_ne {m : MapRef} (h : m ≠ .static g.nStatics) : (half g s).map4 m = g.map4 m := by
  cases m with
  | static i => exact congrArg MapStatic.map4 (statics_half_of_ne fun he => h (by rw [he]))
  | pool => rfl
  | host d => rfl

theorem map6_half_of_ne {m : MapRef} (h : m ≠ .static g.nStatics) : (half g s).map6 m = g.map6 m := by
  cases m with
  | static i => exact congrArg MapStatic.map6 (statics_half_of_ne fun he => h (by rw [he]))
  | pool => rfl
  | host d => rfl

private theorem map4_link6 (m : MapRef) : (link6 g m).map4 = g.map4 := by
  funext r
  cases r <;> rfl

private theorem map6_link6 (m : MapRef) : (link6 g m).map6 = g.map6 := by
  funext r
  cases r <;> rfl

theorem mem4_half {m : MapRef} : m ∈ (half g s).map4List ↔ m = .static g.nStatics ∨ m ∈ g.map4List := mem_insertBefore

private theorem mem6_link6 {m n : MapRef} : n ∈ (link6 g m).map6List ↔ n = m ∨ n ∈ g.map6List := mem_insertBefore

namespace ListsInv

private theorem new_not_mem4 (h : ListsInv g exempt) : MapRef.static g.nStatics ∉ g.map4List := fun hm => by
  have := h.static_lt _ hm
  omega

private theorem new_not_mem6 (h : ListsInv g exempt) : MapRef.static g.nStatics ∉ g.map6List := fun hm =>
  h.new_not_mem4 (h.pair64 _ hm)

theorem ne_new4 (h : ListsInv g exempt) {m : MapRef} (hm : m ∈ g.map4List) : m ≠ .static g.nStatics := by
  rintro rfl
  exact h.new_not_mem4 hm

theorem ne_new6 (h : ListsInv g exempt) {m : MapRef} (hm : m ∈ g.map6List) : m ≠ .static g.nStatics := by
  rintro rfl
  exact h.new_not_mem6 hm

theorem ne_new (h : ListsInv g exempt) {i : Nat} (hi : .static i ∈ g.map4List) : i ≠ g.nStatics := by
  have := h.static_lt i hi
  omega

/-- Linking the IPv4 half of a new entry keeps the lists in order if the entry is exempt. -/
theorem half (h : ListsInv g exempt) (hok : StaticOk s) (hfree : ∀ m ∈ g.map4List, (g.map4 m).same s.map4 = false)
    {exempt' : Nat → Prop} (he : ∀ i, .static i ∈ g.map4List → exempt i → exempt' i) (hn : exempt' g.nStatics) :
    ListsInv (half g s) exempt' where
  list4 := by
    refine (h.list4.congr fun m hm => map4_half_of_ne (h.ne_new4 hm)).insert h.new_not_mem4 ?_ fun m hm => ?_
    · have e : (Tayga.half g s).map4 (.static g.nStatics) = s.map4 := map4_half_self
      rw [e]
      exact hok.fits.wf4
    · have e : (Tayga.half g s).map4 (.static g.nStatics) = s.map4 := map4_half_self
      rw [e, map4_half_of_ne (h.ne_new4 hm)]
      exact hfree m hm
  list6 := h.list6.congr fun m hm => map6_half_of_ne (h.ne_new6 hm)
  static_lt i hi := by
    change i < g.nStatics + 1
    rcases mem4_half.1 hi with hi | hi
    · cases hi
      omega
    · have := h.static_lt i hi
      omega
  static_ok i hi := by
    rcases mem4_half.1 hi with hi | hi
    · cases hi
      rw [statics_half_self]
      exact hok
    · rw [statics_half_of_ne (h.ne_new hi)]
      exact h.static_ok i hi
  valid6 i hi := by
    rw [statics_half_of_ne (h.ne_new (h.pair64 i hi))]
    exact h.valid6 i hi
  pair64 i hi := mem4_half.2 (Or.inr (h.pair64 i hi))
  pair46 i hi := by
    rcases mem4_half.1 hi with hi | hi
    · cases hi
      exact Or.inr hn
    · exact (h.pair46 i hi).imp_right (he i hi)
  pool4 := by
    rw [mem4_half, or_iff_right (by simp)]
    exact h.pool4
  pool6 := h.pool6
  host4 d := by
    rw [mem4_half, or_iff_right (by simp)]
    exact h.host4 d
  host6 := h.host6
  host_ok := h.host_ok

/-- Linking the IPv6 half of an entry keeps the lists in order and ends its exemption. -/
theorem link6 (h : ListsInv g exempt) {i : Nat} (hi : .static i ∈ g.map4List) (hn : .static i ∉ g.map6List)
    (hv : (g.statics i).map6.prefixLen ≠ 0 → validateIp6Addr (g.statics i).map6.addr = none)
    (hfree : ∀ m ∈ g.map6List, (g.map6 m).clash (g.statics i).map6 = false) {exempt' : Nat → Prop}
    (he : ∀ j, j ≠ i → .static j ∈ g.map4List → exempt j → exempt' j) : ListsInv (link6 g (.static i)) exempt' where
  list4 := by rw [map4_link6]; exact h.list4
  list6 := by
    rw [map6_link6]
    exact h.list6.insert hn (h.static_ok i hi).fits.wf6 hfree
  static_lt := h.static_lt
  static_ok := h.static_ok
  valid6 j hj := by
    rcases mem6_link6.1 hj with hj | hj
    · cases hj
      exact hv
    · exact h.valid6 j hj
  pair64 j hj := by
    rcases mem6_link6.1 hj with hj | hj
    · cases hj
      exact hi
    · exact h.pair64 j hj
  pair46 j hj := by
    by_cases hji : j = i
    · exact Or.inl (mem6_link6.2 (Or.inl (by rw [hji])))
    · exact (h.pair46 j hj).imp (fun h6 => mem6_link6.2 (Or.inr h6)) (he j hji hj)
  pool4 := h.pool4
  pool6 := by
    rw [mem6_link6, or_iff_right (by simp)]
    exact h.pool6
  host4 := h.host4
  host6 d := by
    rw [mem6_link6, or_iff_right (by simp)]
    exact h.host6 d
  host_ok := h.host_ok

/-- Linking an entry without a conflict keeps the lists in order. -/
theorem withStatic (h : ListsInv g exempt) (hs : CanLink g s) {exempt' : Nat → Prop}
    (he : ∀ i, .static i ∈ g.map4List → exempt i → exempt' i) : ListsInv (withStatic g s) exempt' := by
  have hhalf : ListsInv (Tayga.half g s) (fun i => i ≠ g.nStatics → exempt' i) :=
    h.half hs.ok hs.free4 (fun i hi hx _ => he i hi hx) fun hx => absurd rfl hx
  refine hhalf.link6 (mem4_half.2 (Or.inl rfl)) h.new_not_mem6 ?_ ?_ fun j hj _ hx => hx hj
  · rw [statics_half_self]
    exact hs.valid
  · intro m hm
    rw [map6_half_of_ne (h.ne_new6 hm), statics_half_self]
    exact hs.free6 m hm

end ListsInv

theorem statics_withStatic_of_ne {i : Nat} (h : i ≠ g.nStatics) : (withStatic g s).statics i = g.statics i :=
  Function.update_of_ne h _ _

theorem map4_withStatic_self : (withStatic g s).map4 (.static g.nStatics) = s.map4 := map4_half_self

theorem map6_withStatic_self : (withStatic g s).map6 (.static g.nStatics) = s.map6 := map6_half_self

theorem map4_withStatic_of_ne {m : MapRef} (h : m ≠ .static g.nStatics) : (withStatic g s).map4 m = g.map4 m := by
  rw [withStatic, map4_link6, map4_half_of_ne h]

theorem map6_withStatic_of_ne {m : MapRef} (h : m ≠ .static g.nStatics) : (withStatic g s).map6 m = g.map6 m := by
  rw [withStatic, map6_link6, map6_half_of_ne h]

theorem mem4_withStatic {m : MapRef} :
    m ∈ (withStatic g s).map4List ↔ m = .static g.nStatics ∨ m ∈ g.map4List := mem4_half

theorem mem6_withStatic {m : MapRef} :
    m ∈ (withStatic g s).map6List ↔ m = .static g.nStatics ∨ m ∈ g.map6List := mem6_link6

/-- An entry that can be linked is linked by `insert_map4` and `insert_map6`. -/
theorem tryInsert_eq_withStatic (h : ListsInv g exempt) (hs : CanLink g s) :
    tryInsertMap6 (tryInsertMap4 (newStatic g s).2 (.static g.nStatics)) (.static g.nStatics) = withStatic g s := by
  have h4 : ∀ m ∈ (newStatic g s).2.map4List,
      ((newStatic g s).2.map4 m).same ((newStatic g s).2.map4 (.static g.nStatics)) = false := by
    intro m hm
    have e1 : (newStatic g s).2.map4 (.static g.nStatics) = s.map4 := map4_withStatic_self
    have e2 : (newStatic g s).2.map4 m = g.map4 m := map4_withStatic_of_ne (h.ne_new4 hm)
    rw [e1, e2]
    exact hs.free4 m hm
  have h6 : ∀ m ∈ (newStatic g s).2.map6List,
      ((newStatic g s).2.map6 m).clash ((newStatic g s).2.map6 (.static g.nStatics)) = false := by
    intro m hm
    have e1 : (newStatic g s).2.map6 (.static g.nStatics) = s.map6 := map6_withStatic_self
    have e2 : (newStatic g s).2.map6 m = g.map6 m := map6_withStatic_of_ne (h.ne_new6 hm)
    rw [e1, e2]
    exact hs.free6 m hm
  rw [tryInsertMap4_eq h4, tryInsertMap6_eq (by rw [map6_link4]; exact h6)]
  rfl

/-! ### What does not depend on the static entries -/

/-- The state with other map lists and static entries. -/
def relist (g : Gcfg) (l4 l6 : List MapRef) (statics : Nat → MapStatic) (n : Nat) : Gcfg :=
  { g with map4List := l4, map6List := l6, statics := statics, nStatics := n }

theorem map4_relist (l4 l6 : List MapRef) (n : Nat) : (relist g l4 l6 g.statics n).map4 = g.map4 := by
  funext m
  cases m <;> rfl

theorem map6_relist (l4 l6 : List MapRef) (n : Nat) : (relist g l4 l6 g.statics n).map6 = g.map6 := by
  funext m
  cases m <;> rfl

theorem RunsInv.relist {p : DynamicPool} (h : RunsInv g p) {l4 l6 : List MapRef} {statics : Nat → MapStatic} {n : Nat} :
    RunsInv (relist g l4 l6 statics n) p :=
  h.regroup rfl rfl (by funext r; cases r <;> rfl) (fun _ => Iff.rfl) h.nodup_leases rfl rfl

theorem PoolInv.relist {p : DynamicPool} (h : PoolInv g p) {l4 l6 : List MapRef} {statics : Nat → MapStatic} {n : Nat} :
    PoolInv (relist g l4 l6 statics n) p :=
  h.regroup rfl rfl (by funext r; cases r <;> rfl) (fun _ => Iff.rfl) h.nodup_leases rfl rfl rfl

theorem Base.relist (h : Base g) {l4 l6 : List MapRef} {statics : Nat → MapStatic} {n : Nat}
    (hm : TablesInv (relist g l4 l6 statics n)) : Base (relist g l4 l6 statics n) where
  tables := hm
  runs p hp := (h.runs p hp).relist
  valid := h.valid
  cache := ⟨h.cache.size, h.cache.nodup, h.cache.hash4, h.cache.hash6, h.cache.unique⟩

theorem Wf.relist (h : Wf g) {l4 l6 : List MapRef} {statics : Nat → MapStatic} {n : Nat}
    (hm : MapsInv (relist g l4 l6 statics n)) : Wf (relist g l4 l6 statics n) where
  maps := hm
  pool p hp := (h.pool p hp).relist
  valid := h.valid
  cache := ⟨h.cache.size, h.cache.nodup, h.cache.hash4, h.cache.hash6, h.cache.unique⟩
  link := ⟨h.link.link, h.link.flag, h.link.dormant⟩

theorem withStatic_eq_relist : withStatic g s =
    relist g (withStatic g s).map4List (withStatic g s).map6List (withStatic g s).statics (withStatic g s).nStatics :=
  rfl

theorem IsOwn.withStatic {i : Nat} (h : IsOwn g i) (hi : i ≠ g.nStatics) : IsOwn (withStatic g s) i where
  map4 := by rw [statics_withStatic_of_ne hi]; exact h.map4
  map6 := by rw [statics_withStatic_of_ne hi]; exact h.map6
  origin := by rw [statics_withStatic_of_ne hi]; exact h.origin

theorem TablesInv.withStatic (h : TablesInv g) (hs : CanLink g s) : TablesInv (withStatic g s) where
  toListsInv := h.toListsInv.withStatic hs fun i hi ho => ho.withStatic (h.ne_new hi)
  own := by
    obtain ⟨i, hi, hown, h6 | ⟨j, hj, ht, hd⟩⟩ := h.own
    · exact ⟨i, mem4_withStatic.2 (Or.inr hi), hown.withStatic (h.ne_new hi), Or.inl (mem6_withStatic.2 (Or.inr h6))⟩
    · have hne := h.ne_new (h.pair64 j hj)
      refine ⟨i, mem4_withStatic.2 (Or.inr hi), hown.withStatic (h.ne_new hi), Or.inr ⟨j,
        mem6_withStatic.2 (Or.inr hj), ?_⟩⟩
      rw [statics_withStatic_of_ne hne]
      exact ⟨ht, hd⟩

theorem MapsInv.withStatic (h : MapsInv g) (hs : CanLink g s) : MapsInv (withStatic g s) where
  toTablesInv := h.toTablesInv.withStatic hs
  listed4 d hd := mem4_withStatic.2 (Or.inr (h.listed4 d hd))
  listed6 d hd := mem6_withStatic.2 (Or.inr (h.listed6 d hd))

theorem Base.withStatic (h : Base g) (hs : CanLink g s) : Base (withStatic g s) := by
  rw [withStatic_eq_relist]
  exact h.relist (h.tables.withStatic hs)

theorem Wf.withStatic (h : Wf g) (hs : CanLink g s) : Wf (withStatic g s) := by
  rw [withStatic_eq_relist]
  exact h.relist (h.maps.withStatic hs)

end Tayga
