import Tayga.RoundTrip6

/-!
# Transparency of the cache

A pair filed by a lookup in one direction answers lookups in the other.  The cache is transparent when every answer
of a probe is the answer of the slow path of the same function (`Transparent`).  It is in every state reached from a
startup by a run whose steps file no pair that the other direction refuses and revive no shadowed lease
(`cache_transparent_run`).
-/

namespace Tayga

variable {g g' : Gcfg} {a : In4} {x : In6}

/-- Whenever a probe answers, the slow path of the same function answers the same. -/
structure Transparent (g : Gcfg) : Prop where
  four : ∀ a x g', probe4 g a = some (x, g') → (slow4 g a).1 = .ok x
  six : ∀ x dyn a g', probe6 g x = some (a, g') → (slow6 g x dyn).1 = .ok a

/-- A reload that succeeds leaves no pair in the cache, unless no map file is configured and nothing is replaced. -/
def FlushedByReload (libc : Libc) (g : Gcfg) : Prop := ∀ file, (addrmapReload g libc file).1 = .ok () →
  (g.mapFile = [] ∧ (addrmapReload g libc file).2 = g) ∨ ∀ a x, ¬ Cached (addrmapReload g libc file).2 a x

/-! ### Pairs that lead back -/

/-- The IPv6 slow path leads back to the address: its entry has both halves in the lists, and a static map with host
bits does not find it reserved. -/
def TwoWay (g : Gcfg) (a : In4) : Prop := ∀ i, findMap4 g a = some (.static i) → .static i ∈ g.map6List ∧
  ((g.statics i).map4.type = .static → 0 < (g.statics i).bits → validateIp4Addr a = none)

/-- Every cached pair leads back. -/
def Reversible (g : Gcfg) : Prop := ∀ a x, Cached g a x → TwoWay g a

/-- The addresses of the cached pairs are found as before. -/
structure KeepsPairs (g g' : Gcfg) : Prop where
  cached : ∀ a x, Cached g' a x → Cached g a x
  find4 : ∀ a x, Cached g' a x → findMap4 g' a = findMap4 g a
  statics : g'.statics = g.statics
  mem6 : ∀ i, .static i ∈ g.map6List → .static i ∈ g'.map6List

theorem Reversible.keep (h : Reversible g) (hk : KeepsPairs g g') : Reversible g' := by
  intro a x hc i hf
  rw [hk.find4 a x hc] at hf
  obtain ⟨h6, hv⟩ := h a x (hk.cached a x hc) i hf
  rw [hk.statics]
  exact ⟨hk.mem6 i h6, hv⟩

private theorem SameMaps.keepsPairs (hs : SameMaps g g') (hc : ∀ a x, Cached g' a x → Cached g a x) :
    KeepsPairs g g' where
  cached := hc
  find4 a _ _ := hs.findMap4 a
  statics := hs.statics
  mem6 i hi := by rw [hs.map6List]; exact hi

theorem SameMapped.cached (hs : SameMapped g g') : Cached g' a x ↔ Cached g a x := by
  unfold Cached
  rw [hs.cacheActive, hs.entries]

private theorem SameMapped.keepsPairs (hs : SameMapped g g') (hm : TablesInv g) : KeepsPairs g g' where
  cached _ _ := hs.cached.1
  find4 a _ _ := hs.findMap4 hm a
  statics := hs.statics
  mem6 i hi := by rw [hs.map6List]; exact hi

/-- A cached pair of a coherent state that leads back is what the IPv6 slow path finds. -/
theorem TwoWay.found6 (h : Inv g) (ht : TwoWay g a) (hc : Cached g a x) : ∃ l, resolve6 g x = .ok ⟨a, l, true⟩ := by
  obtain ⟨l, hr⟩ := h.coherent a x hc
  refine ⟨l, resolve6_eq_ok.2 ?_⟩
  exact (resolve4_eq_ok.1 hr).found6_of_mem h.maps (fun i hf => (ht i hf).1) fun i hf => (ht i hf).2

private theorem Reversible.transparent (hr : Reversible g) (h : Inv g) : Transparent g where
  four a x g' hp := by
    obtain ⟨-, c, hc, h6, -⟩ := probe4_eq_some.1 hp
    obtain ⟨hca, h4⟩ := h.cache.cached4_some hc
    obtain ⟨l, hl⟩ := h.coherent a x ⟨c, hca, h4, h6⟩
    rw [slow4, hl]
  six x dyn a g' hp := by
    obtain ⟨-, c, hc, h4, -⟩ := probe6_eq_some.1 hp
    obtain ⟨hca, h6⟩ := h.cache.cached6_some hc
    have hpair : Cached g a x := ⟨c, hca, h4, h6⟩
    obtain ⟨l, hl⟩ := (hr a x hpair).found6 h hpair
    have hf : findMap6 g x ≠ none := fun hn => by
      rw [resolve6, hn] at hl
      cases hl
    rw [slow6_of_find (Or.inl hf), hl]

/-! ### What a lookup files -/

/-- The lookup files a pair that the way back refuses: the entry of the address has no IPv6 half in the list, or the
address is a reserved one under a static map with host bits. -/
def Lookup.OneWay (g : Gcfg) : Lookup → Prop
  | .four addr4 => g.cacheSize ≠ 0 ∧ g.cachePool ≠ [] ∧ match findMap4 g addr4 with
    | some (.static i) => (g.statics i).map4.type = .static ∧ (g.statics i).cachePair = true ∧
        (.static i ∉ g.map6List ∨ (g.statics i).map4.prefixLen < 32 ∧ validateIp4Addr addr4 ≠ none)
    | _ => False
  | .six _ _ => False

theorem Reversible.publish (h : Reversible g) (hc : CacheInv g) {l : Option Nat} {cp : Bool}
    (hn : g.cacheSize ≠ 0 → cp = true → g.cachePool ≠ [] → TwoWay g a) : Reversible (publish g a x l cp) := by
  have hs := sameMaps_publish hc a x l cp
  intro b y hby
  have hb : TwoWay g b := by
    rcases (cached_publish hc a x l cp b y).1 hby with hby | ⟨⟨h0, hcp, hp⟩, rfl, -⟩
    · exact h b y hby
    · exact hn h0 hcp hp
  intro i hf
  rw [hs.findMap4] at hf
  rw [hs.map6List, hs.statics]
  exact hb i hf

/-- A pair that the IPv4 slow path files leads back, unless the lookup is one-way. -/
private theorem Found4.twoWay (hm : MapsInv g) {l : Option Nat} {cp : Bool} (h : Found4 g a ⟨x, l, cp⟩)
    (h0 : g.cacheSize ≠ 0)
    (hcp : cp = true) (hp : g.cachePool ≠ []) (hn : ¬ (Lookup.four a).OneWay g) : TwoWay g a := by
  subst hcp
  intro i hf
  have hmem := (hm.mem4 hf).1
  by_cases ht : (g.statics i).map4.type = .static
  · have hpair : (g.statics i).cachePair = true := (congrArg Found.cachePair (h.of_static hf ht).1).symm
    simp only [Lookup.OneWay, hf] at hn
    have hno := fun hor => hn ⟨h0, hp, ht, hpair, hor⟩
    rw [imp_false, not_or, not_and, not_not] at hno
    refine ⟨hno.1, fun _ hb => not_not.1 (hno.2 ?_)⟩
    unfold MapStatic.bits at hb
    omega
  · refine ⟨?_, fun ht' => absurd ht' ht⟩
    rcases hm.pair46 i hmem with h6 | hown
    · exact h6
    · exact absurd (by rw [hown.map4]) ht

/-- A pair that the IPv6 slow path finds leads back. -/
private theorem Found6.twoWay (hm : MapsInv g) {l : Option Nat} {cp : Bool} (h : Found6 g x ⟨a, l, cp⟩) :
    TwoWay g a := by
  generalize hr : (⟨a, l, cp⟩ : Found In4) = f at h
  cases h with
  | @static i hf6 ht hb =>
    cases hr
    obtain ⟨h6, -⟩ := hm.find6.1 hf6
    have h4 := hm.pair64 i h6
    have hok := hm.static_ok i h4
    have hf4 : findMap4 g (staticAddr4 (g.statics i) x) = some (.static i) := by
      by_cases h0 : 0 < (g.statics i).bits
      · exact (hb h0).2.2
      · rw [staticAddr4_of_host hok.fits (by omega)]
        have hl : (g.map4 (.static i)).prefixLen = 32 := by
          have := hok.fits.bits_eq
          rw [Gcfg.map4]
          omega
        exact hm.list4.find_host h4 hl
    intro j hj
    rw [hf4] at hj
    cases hj
    exact ⟨h6, fun _ h0 => (hb h0).1⟩
  | @rfc6052 i b hf6 ht ha hs hf4 =>
    cases hr
    obtain ⟨h6, -⟩ := hm.find6.1 hf6
    intro j hj
    rw [hf4] at hj
    cases hj
    refine ⟨h6, fun ht4 => ?_⟩
    rw [((hm.static_ok6 h6).rfc4 ht).1] at ht4
    cases ht4
  | @host d hf6 =>
    cases hr
    intro j hj
    rw [hm.find4_lease (hm.host6 d (hm.find6.1 hf6).1)] at hj
    cases hj

theorem Reversible.slow4 (h : Reversible g) (hi : Inv g) (hn : ¬ (Lookup.four a).OneWay g) :
    Reversible (slow4 g a).2 := by
  unfold Tayga.slow4
  cases hr : Tayga.resolve4 g a with
  | error e => exact h
  | ok f => exact h.publish hi.cache fun h0 hcp hp => (resolve4_eq_ok.1 hr).twoWay hi.maps h0 hcp hp hn

/-- Linking a lease that is not shadowed leaves the cached pairs alone. -/
private theorem Linkable.keepsPairs {d : Nat} (hl : Linkable g d) (h : Inv g) : KeepsPairs g (moveToMapped g d) := by
  rw [moveToMapped_eq (hl.not_same h.base) (hl.no_clash h.base)]
  have hc : ∀ a x, Cached (linked g d) a x → Cached g a x := fun _ _ hc => hc
  refine ⟨hc, fun a x hax => ?_, rfl, fun i hi => Linkable.mem6.2 (Or.inr hi)⟩
  refine hl.findMap4_other h.base ?_
  rintro rfl
  obtain ⟨c, hca, h4, -⟩ := hc _ _ hax
  exact hl.clear (Or.inr ⟨c, hca, h4⟩)

theorem Reversible.slow6 (h : Reversible g) (hi : Inv g) {dyn : Bool} (hv : (Lookup.six x dyn).Checked)
    (hn : ¬ (Lookup.six x dyn).Revives g) : Reversible (slow6 g x dyn).2 := by
  by_cases hx : findMap6 g x ≠ none ∨ dyn = false
  · rw [slow6_of_find hx]
    cases hr : resolve6 g x with
    | error e => exact h
    | ok f => exact h.publish hi.cache fun _ _ _ => (resolve6_eq_ok.1 hr).twoWay hi.maps
  · simp only [not_or, not_not, Bool.not_eq_false] at hx
    obtain ⟨hx, rfl⟩ := hx
    rcases assignDynamic_cases hi (hv rfl) hx with ⟨e, -⟩ | ⟨d, g', e, ha⟩
    · rw [slow6_of_no_assign hx e]
      exact h
    · have hl : Linkable g' d := by
        refine ⟨ha.idle hi.maps.toTablesInv hx, fun hs => ?_⟩
        obtain ⟨hre, hs⟩ := ha.shadowed.1 hs
        exact hn ⟨hx, d, hre, hs⟩
      have hi' := hl.inv_moveToMapped ha.inv
      rw [slow6_of_assign hx e]
      refine ((h.keep (ha.same.keepsPairs hi.maps.toTablesInv)).keep (hl.keepsPairs ha.inv)).publish hi'.cache fun _
          _ _ => ?_
      -- the address of the new pair is that of a lease
      intro i hf
      have hr := ha.resolve4 hl
      rw [Tayga.resolve4, hf] at hr
      have hmem := (hi'.maps.lease_of_resolve4 (ha.resolve4 hl) (d := d)).1 rfl
      rw [hi'.maps.find4_lease hmem.1] at hf
      cases hf

/-! ### What the other steps keep -/

/-- A mapped lease without a cache entry has no pair in the cache. -/
private theorem keepsPairs_moveToDormant (h : Inv g) {d : Nat} (hd : d ∈ g.mapped)
    (hc : (g.hosts d).cacheEntry = none) :
    KeepsPairs g (moveToDormant g d) := by
  have hcached : ∀ a x, Cached (moveToDormant g d) a x → Cached g a x := fun _ _ hc => hc
  refine ⟨hcached, fun a x hax => ?_, rfl, fun i hi => mem6_moveToDormant.2 ⟨hi, by simp⟩⟩
  obtain ⟨c, hca, h4, -⟩ := hcached a x hax
  refine findMap4_moveToDormant fun hf => ?_
  have hmem := h.maps.mem4 hf
  have ha : a = g.v4 d := ((h.maps.list4.wf _ hmem.1).covers_host (by
    rw [Gcfg.map4, (h.maps.host_ok d (Or.inl hd)).map4])).1 hmem.2
  have := (h.link.link d hd c).2 ⟨hca, h4.trans ha⟩
  rw [hc] at this
  cases this

private theorem keepsPairs_expireLease (h : Inv g) {p : DynamicPool} (hp : g.dynamicPool = some p) (d : Nat) :
    KeepsPairs g (expireLease g p d) := by
  cases hr : prevRun (.host d) p.freeList with
  | none =>
    unfold expireLease
    rw [hr]
    exact (SameMaps.refl g).keepsPairs fun _ _ hc => hc
  | some f =>
    rw [expireLease_eq hr]
    exact (sameMapped_joined hp).keepsPairs h.maps.toTablesInv

theorem Reversible.dynamicMaint (h : Reversible g) (hi : Inv g) (shutdown : Bool) :
    Reversible (dynamicMaint g shutdown).1 :=
  (dynamicMaint_induct (P := fun s => Inv s ∧ Reversible s)
    (fun _ _ h hd hc _ => ⟨h.1.moveToDormant (Or.inl hd) hc, h.2.keep (keepsPairs_moveToDormant h.1 hd hc)⟩)
    (fun _ _ d h hp hd _ => ⟨h.1.expireLease hp hd, h.2.keep (keepsPairs_expireLease h.1 hp d)⟩)
    (fun _ b h => ⟨h.1.writePending b, h.2⟩) (fun p hp => (hi.pool p hp).nodup_mapped) ⟨hi, h⟩ shutdown).2

theorem Reversible.addrmapMaint (h : Reversible g) (hi : Inv g) : Reversible (addrmapMaint g) :=
  addrmapMaint_induct (fun s c h _ => h.keep ((sameMaps_releaseEntry s c).keepsPairs fun _ _ => cached_releaseEntry))
    hi.cache.nodup_active h

/-- A reload changes nothing or empties the cache. -/
private theorem addrmapReload_cases (g : Gcfg) (libc : Libc) (file : Option MapFileRead) :
    ((addrmapReload g libc file).2 = g ∧ (g.mapFile = [] ∨ (addrmapReload g libc file).1 = .error .reject)) ∨
    ∀ a x, ¬ Cached (addrmapReload g libc file).2 a x := by
  unfold Tayga.addrmapReload
  split
  · rename_i h
    exact Or.inl ⟨rfl, Or.inl h⟩
  split
  · exact Or.inl ⟨rfl, Or.inr rfl⟩
  split
  · exact Or.inl ⟨rfl, Or.inr rfl⟩
  split
  · exact Or.inl ⟨rfl, Or.inr rfl⟩
  · refine Or.inr ?_
    rintro a x ⟨c, hc, -⟩
    rw [publishMaps, cacheActive_flushCache] at hc
    cases hc

private theorem flushedByReload (libc : Libc) (g : Gcfg) : FlushedByReload libc g := by
  intro file hr
  rcases addrmapReload_cases g libc file with ⟨e, h | h⟩ | h
  · exact Or.inl ⟨h, e⟩
  · rw [h] at hr
    cases hr
  · exact Or.inr h

/-! ### Runs -/

/-- The event makes no pending lookup file a one-way pair or bring a shadowed lease back. -/
def FilesBothWays (s : System) : Event → Prop
  | .finish w => ∀ l ∈ s.pending w, ¬ l.Revives s.map ∧ ¬ l.OneWay s.map
  | _ => True

private theorem FilesBothWays.revivesNothing {s : System} {e : Event} (h : FilesBothWays s e) : RevivesNothing s e := by
  cases e with
  | finish w => exact fun l hl => (h l hl).1
  | _ => trivial

/-- The invariant of the system, and every cached pair leads back. -/
structure CacheSysInv (s : System) : Prop where
  sys : SysInv s
  rev : Reversible s.map

theorem Reversible.probe (h : Reversible g) {l : Lookup} (hp : l.probe g = some g') : Reversible g' := by
  obtain ⟨c, rfl⟩ := Lookup.probe_eq_some hp
  exact h.keep ((sameMaps_touch c).keepsPairs fun a x => ((samePairs_touch c).cached a x).1)

theorem Reversible.slow (h : Reversible g) (hi : Inv g) {l : Lookup} (hl : l.Checked)
    (hn : ¬ l.Revives g ∧ ¬ l.OneWay g) : Reversible (l.slow g) := by
  cases l with
  | four a => exact h.slow4 hi hn.2
  | six x dyn => exact h.slow6 hi hl hn.1

theorem CacheSysInv.step {libc : Libc} {s : System} (h : CacheSysInv s) {e : Event} (he : FilesBothWays s e) :
    CacheSysInv (step libc s e) := by
  refine ⟨h.sys.step he.revivesNothing, ?_⟩
  cases e with
  | look w l =>
    simp only [Tayga.step]
    split
    · cases hp : l.probe s.map with
      | some g => exact h.rev.probe hp
      | none => exact h.rev
    · exact h.rev
  | finish w =>
    simp only [Tayga.step]
    cases hp : s.pending w with
    | none => exact h.rev
    | some l => exact h.rev.slow h.sys.inv (h.sys.checked w l hp) (he l hp)
  | cacheMaint =>
    simp only [Tayga.step]
    split
    · exact h.rev
    · exact h.rev.addrmapMaint h.sys.inv
  | dynamicMaint shutdown =>
    simp only [Tayga.step]
    split
    · exact h.rev
    · exact h.rev.dynamicMaint h.sys.inv shutdown
  | written failed =>
    simp only [Tayga.step]
    split
    · unfold dynamicMaintDone
      split <;> exact h.rev
    · exact h.rev
  | reload file =>
    simp only [Tayga.step]
    split
    · exact h.rev
    · rcases addrmapReload_cases s.map libc file with ⟨e, -⟩ | hno
      · simp only [e]
        exact h.rev
      · exact fun a x hc => absurd hc (hno a x)
  | tick t =>
    simp only [Tayga.step]
    split <;> exact h.rev
  | alloc fails => exact h.rev

instance (l : Lookup) : Decidable (l.OneWay g) :=
  match l with
  | .four a => by
    unfold Lookup.OneWay
    simp only []
    cases findMap4 g a with
    | none => exact instDecidableAnd
    | some m => cases m <;> exact instDecidableAnd
  | .six _ _ => isFalse id

instance (s : System) (e : Event) : Decidable (FilesBothWays s e) :=
  match e with
  | .finish w => inferInstanceAs (Decidable (∀ l ∈ s.pending w, ¬ l.Revives s.map ∧ ¬ l.OneWay s.map))
  | .look _ _ | .cacheMaint | .dynamicMaint _ | .written _ | .reload _ | .tick _ | .alloc _ => isTrue trivial

/-- **The cache is transparent in every state reached** from a startup by a run that files no one-way pair and revives
no shadowed lease, and a reload leaves nothing in it. -/
theorem cache_transparent_run {libc : Libc} {e : Endian} {now : Int} {content : List Char} {sd : Option (List Char)}
    {rand : Nat → BitVec 32} (hs : startup libc e now content sd rand = .ok g) {es : List Event}
    (ha : Run.Along (step libc) FilesBothWays (.start g) es) :
    Transparent (Run.run (step libc) (.start g) es).map ∧
    FlushedByReload libc (Run.run (step libc) (.start g) es).map := by
  have h0 : CacheSysInv (.start g) := by
    refine ⟨(startup_inv hs).start, ?_⟩
    rintro a x ⟨c, hc, -⟩
    have hc' : c ∈ g.cacheActive := hc
    rw [cacheActive_startup hs] at hc'
    cases hc'
  have h := ha.inv (fun _ _ h he => h.step he) h0
  exact ⟨h.rev.transparent h.sys.inv, flushedByReload libc _⟩

theorem cache_transparent_run_sample : ∃ g, sampleStart = .ok g ∧
    Transparent (Run.run (step sampleLibc) (.start g) (sampleRun "map 198.18.0.5 2001:db8::99")).map ∧
    FlushedByReload sampleLibc (Run.run (step sampleLibc) (.start g) (sampleRun "map 198.18.0.5 2001:db8::99")).map
        := by
  obtain ⟨g, hs, ha⟩ := start_any (r := sampleStart) (p := fun g =>
    Run.Along (step sampleLibc) FilesBothWays (.start g) (sampleRun "map 198.18.0.5 2001:db8::99"))
    (by decide +kernel)
  exact ⟨g, hs, cache_transparent_run hs ha⟩

/-- A worker has translated a packet to the translator's own IPv4 address; from then on the cache maps the derived
IPv6 address, which the slow path refuses. -/
theorem cache_transparent_run_own : ∃ g, sampleStart = .ok g ∧
    ¬ Transparent (Run.run (step sampleLibc) (.start g) [.look 0 (.four 0xc0000201), .finish 0]).map := by
  obtain ⟨g, hs, hp, hn⟩ := start_any (r := sampleStart) (p := fun g =>
    let s := (Run.run (step sampleLibc) (.start g) [.look 0 (.four 0xc0000201), .finish 0]).map
    (probe6 s 0x20010db80001000000000000c0000201).map Prod.fst = some 0xc0000201 ∧
    (slow6 s 0x20010db80001000000000000c0000201 false).1 ≠ .ok 0xc0000201) (by decide +kernel)
  obtain ⟨⟨b, g'⟩, hp, hb⟩ := Option.map_eq_some_iff.1 hp
  have hb' : b = 0xc0000201 := hb
  subst hb'
  exact ⟨g, hs, fun ht => hn (ht.six _ false _ g' hp)⟩

end Tayga
