import Tayga.Runs

/-!
# Mapping from IPv6 and back

The round trip of an IPv6 address in the states that are reached from a startup while no lookup revives a shadowed lease
(`map_round_trip6`): the IPv4 address leads back to the canonical form of the IPv6 address and to no other one, unless
this lookup revives a shadowed lease.
-/

namespace Tayga

variable {g : Gcfg} {a : In4} {x : In6}

/-! ### What an answer means -/

/-- An answer of `map_ip6_to_ip4` leads back to the canonical form of the address, and no address with another
canonical form is answered with it. -/
def LeadsBack (g : Gcfg) (x : In6) (dyn : Bool) : Prop :=
  ∀ a, (mapIp6ToIp4 g x dyn).1 = .ok a →
    (mapIp4ToIp6 (mapIp6ToIp4 g x dyn).2 a).1 = .ok (canonical6 g x) ∧
    ∀ y, validateIp6Addr y = none → validateIp6Addr (canonical6 (mapIp6ToIp4 g x dyn).2 y) = none →
      (mapIp6ToIp4 (mapIp6ToIp4 g x dyn).2 y false).1 = .ok a →
      canonical6 (mapIp6ToIp4 g x dyn).2 y = canonical6 g x

theorem resolve6_of_fst {dyn : Bool} (hx : findMap6 g x ≠ none ∨ dyn = false)
    (ha : (slow6 g x dyn).1 = .ok a) : ∃ l cp, resolve6 g x = .ok ⟨a, l, cp⟩ := by
  rw [slow6_of_find hx] at ha
  cases hr : resolve6 g x with
  | error e =>
    rw [hr] at ha
    cases ha
  | ok f =>
    rw [hr] at ha
    cases ha
    exact ⟨f.lease, f.cachePair, rfl⟩

private theorem sameMaps_slow6 (hc : CacheInv g) {dyn : Bool} (hx : findMap6 g x ≠ none ∨ dyn = false) :
    SameMaps g (slow6 g x dyn).2 := by
  rw [slow6_of_find hx]
  cases resolve6 g x with
  | error e => exact SameMaps.refl g
  | ok f => exact sameMaps_publish hc f.addr x f.lease f.cachePair

/-- After an answer that revives no shadowed lease, the IPv4 slow path finds the canonical form of the address. -/
private theorem found4_of_answer (h : Inv g) (hv : validateIp6Addr x = none)
    (hvc : validateIp6Addr (canonical6 g x) = none)
    {dyn : Bool} (hb : ¬ RevivesShadowed g x dyn) (ha : (mapIp6ToIp4 g x dyn).1 = .ok a) :
    ∃ l cp, Found4 (mapIp6ToIp4 g x dyn).2 a ⟨canonical6 g x, l, cp⟩ := by
  rcases mapIp6ToIp4_cases (g := g) x dyn with ⟨c, -, hc, e⟩ | ⟨hmiss, e⟩
  · -- a hit: the pair is what the IPv4 slow path finds
    rw [e] at ha ⊢
    cases ha
    obtain ⟨hca, h6⟩ := h.cache.cached6_some hc
    obtain ⟨l, hr⟩ := h.coherent _ _ ⟨c, hca, rfl, h6⟩
    have h4 := resolve4_eq_ok.1 hr
    rw [h4.canonical h.maps]
    exact ⟨l, true, resolve4_eq_ok.1 (by rw [(sameMaps_touch c).resolve4, hr])⟩
  · rw [e] at ha ⊢
    by_cases hx : findMap6 g x ≠ none ∨ dyn = false
    · -- a miss with an entry: the two slow paths are inverse
      obtain ⟨l, cp, hr⟩ := resolve6_of_fst hx ha
      have h4 := (resolve6_eq_ok.1 hr).found4 h.maps hvc
      exact ⟨l, cp, resolve4_eq_ok.1 (by rw [(sameMaps_slow6 h.cache hx).resolve4, resolve4_eq_ok.2 h4])⟩
    · -- a miss without an entry: the lease answers for its own address
      simp only [not_or, not_not, Bool.not_eq_false] at hx
      obtain ⟨hx, rfl⟩ := hx
      rcases assignDynamic_cases h hv hx with ⟨ea, -⟩ | ⟨d, g', ea, hact⟩
      · rw [slow6_of_no_assign hx ea] at ha
        cases ha
      · have hl : Linkable g' d := by
          refine ⟨hact.idle h.maps.toTablesInv hx, fun hs => ?_⟩
          obtain ⟨hre, hs⟩ := hact.shadowed.1 hs
          exact hb ⟨probe6_eq_none.2 hmiss, hx, rfl, d, hre, hs⟩
        have hinv := hl.inv_moveToMapped hact.inv
        have hcan : canonical6 g x = x := by rw [canonical6, hx]
        rw [slow6_of_assign hx ea] at ha ⊢
        cases ha
        rw [hcan]
        refine ⟨some d, true, resolve4_eq_ok.1 ?_⟩
        rw [(sameMaps_publish hinv.cache _ _ _ _).resolve4]
        exact hact.resolve4 hl

/-- A lookup that assigns nothing leaves the maps alone. -/
private theorem sameMaps_mapIp6ToIp4 (hc : CacheInv g) {dyn : Bool} (hx : findMap6 g x ≠ none ∨ dyn = false) :
    SameMaps g (mapIp6ToIp4 g x dyn).2 := by
  rcases mapIp6ToIp4_cases (g := g) x dyn with ⟨c, -, -, e⟩ | ⟨-, e⟩ <;> rw [e]
  · exact sameMaps_touch c
  · exact sameMaps_slow6 hc hx

private theorem not_revives_false : ¬ RevivesShadowed g x false := fun h => by
  cases h.2.2.1

/-- A lookup that revives no shadowed lease leads back. -/
private theorem leadsBack_of_not_revives (h : Inv g) (hv : validateIp6Addr x = none)
    (hvc : validateIp6Addr (canonical6 g x) = none) {dyn : Bool} (hb : ¬ RevivesShadowed g x dyn) :
    LeadsBack g x dyn := by
  intro a ha
  have h' := h.mapIp6ToIp4 (fun _ => hv) hb
  obtain ⟨l, cp, h4⟩ := found4_of_answer h hv hvc hb ha
  refine ⟨?_, ?_⟩
  · rw [mapIp4ToIp6_fst h'.cache h'.coherent, resolve4_eq_ok.2 h4]
    rfl
  · intro y hy hyc hya
    obtain ⟨l', cp', h4'⟩ := found4_of_answer h' hy hyc not_revives_false hya
    have hr := resolve4_eq_ok.2 h4'
    rw [(sameMaps_mapIp6ToIp4 h'.cache (Or.inr rfl)).resolve4, resolve4_eq_ok.2 h4] at hr
    exact (congrArg Found.addr (Except.ok.inj hr)).symm

/-! ### A shadowed lease -/

/-- No entry of a list with an uncovered address covers everything. -/
private theorem MapsInv.prefixLen_ne_zero_of_uncovered (hm : MapsInv g) (hx : findMap6 g x = none) (i : Nat)
    (hi : .static i ∈ g.map6List) : (g.statics i).map6.prefixLen ≠ 0 := by
  intro h0
  have hw := (hm.static_ok6 hi).fits.wf6
  have hc : (g.statics i).map6.covers x = true := by
    refine hw.covers_iff.2 ?_
    have hz : (g.statics i).map6.addr = 0#128 := by
      have := hw.normal
      rw [h0, BitPrefix.Normal, BitPrefix.mask_zero, BitVec.and_zero] at this
      exact this.symm
    rw [h0, BitPrefix.inNet_zero]
    exact hz
  have := hm.find6.2 ⟨hi, hc⟩
  rw [hx] at this
  cases this

/-- What shadows a lease: a static host map of its address, or a cached pair.  Either way another IPv6 address stands
for the lease's IPv4 address. -/
theorem Shadowed.other (h : Inv g) {d : Nat} (hd : d ∈ g.dormant) (hs : Shadowed g d) :
    ∃ y l cp, Found4 g (g.v4 d) ⟨y, l, cp⟩ ∧
      (Cached g (g.v4 d) y ∨ ∃ i, .static i ∈ g.map6List ∧ (g.statics i).map6.type = .static ∧
        (g.statics i).bits = 0 ∧ (g.statics i).map4.addr = g.v4 d ∧ y = (g.statics i).map6.addr) := by
  obtain ⟨p, hp⟩ := exists_pool (.inr hd)
  have hpool := h.pool p hp
  have hd' : d ∈ p.mappedList ∨ d ∈ p.dormantList := Or.inr (by rw [← dormant_of_pool hp]; exact hd)
  rcases hs with ⟨m, hm, hl, ha⟩ | ⟨c, hc, h4⟩
  · cases m with
    | static i =>
      have hl' : (g.statics i).map4.prefixLen = 32 := hl
      have ha' : (g.statics i).map4.addr = g.v4 d := ha
      have hok := h.maps.static_ok i hm
      have hbits : (g.statics i).bits = 0 := by rw [MapStatic.bits, hl']
      have hf : findMap4 g (g.v4 d) = some (.static i) := by
        have := h.maps.list4.find_host hm hl
        rwa [ha] at this
      have ht : (g.statics i).map4.type = .static := by
        rcases hok.kind with ⟨ht, -⟩ | ⟨-, -, h0, -⟩
        · exact ht
        · omega
      have hf4 := Found4.static hf ht fun h0 => absurd hbits (by omega)
      rw [staticAddr6_of_host hok.fits hbits] at hf4
      exact ⟨_, _, _, hf4, Or.inr ⟨i, h.maps.mem6_of_find4 (hpool.not_own d hd') hf, hok.static6 ht, hbits, ha', rfl⟩⟩
    | pool =>
      -- the pool's base address is in use by the pool itself
      exfalso
      have hbase : p.map4.addr = g.v4 d := by
        have : (g.map4 .pool).addr = g.v4 d := ha
        rwa [Gcfg.map4, hp] at this
      have hhead := hpool.head
      have hchain := hpool.chain
      cases hfl : p.freeList with
      | nil =>
        rw [hfl] at hhead
        cases hhead
      | cons r l =>
        rw [hfl] at hhead hchain
        cases hhead
        have hstart : (g.run .head).1 = p.map4.addr.toNat := hchain.1
        have hmem : FreeRef.head ∈ p.freeList := by rw [hfl]; exact List.mem_cons_self
        have := hpool.start_inj hmem (hpool.lease_mem hd') (by
          rw [hstart, hbase, ← hpool.addr d hd']
          rfl)
        cases this
    | host e =>
      exfalso
      have he := h.maps.host4 e hm
      have hed : e = d := hpool.v4_inj (Or.inl (by rw [← mapped_of_pool hp]; exact he)) hd' ha
      subst hed
      exact h.not_dormant he hd
  · obtain ⟨l, hr⟩ := h.coherent _ _ ⟨c, hc, h4, rfl⟩
    exact ⟨_, _, _, resolve4_eq_ok.1 hr, Or.inl ⟨c, hc, h4, rfl⟩⟩

/-- The state in which a shadowed lease has been brought back for `x`, before the pair is published. -/
structure Revived (g : Gcfg) (x : In6) (d : Nat) (g' : Gcfg) : Prop where
  cacheSize : g'.cacheSize = g.cacheSize
  statics : g'.statics = g.statics
  v4 : g'.v4 d = g.v4 d
  cache : CacheInv g'
  cached : ∀ b y, Cached g' b y ↔ Cached g b y
  findMap6 : ∀ y, y ≠ x → findMap6 g' y = findMap6 g y

private theorem Activating.revived (h : Inv g) (hx : findMap6 g x = none) {d : Nat} {g' : Gcfg}
    (ha : Activating g x d g') (hre : reactivated g x = some d) : Revived g x d (moveToMapped g' d) := by
  have hidle := ha.idle h.maps.toTablesInv hx
  have hc := ha.same.cacheInv h.cache
  have hcached : ∀ b y, Cached g' b y ↔ Cached g b y := by
    intro b y
    unfold Cached
    rw [ha.same.cacheActive, ha.same.entries]
  have hfind : ∀ y, y ≠ x → Tayga.findMap6 (linked g' d) y = Tayga.findMap6 g y := by
    intro y hy
    rw [hidle.findMap6_other ha.inv.base (by rw [ha.addr6]; exact hy), ha.same.findMap6 h.maps.toTablesInv]
  rcases moveToMapped_cases (hidle.no_clash ha.inv.base) with e | e <;> rw [e]
  · exact ⟨ha.same.cacheSize, ha.same.statics, ha.addr4 hre, ⟨hc.size, hc.nodup, hc.hash4, hc.hash6, hc.unique⟩,
      hcached, hfind⟩
  · exact ⟨ha.same.cacheSize, ha.same.statics, ha.addr4 hre, ⟨hc.size, hc.nodup, hc.hash4, hc.hash6, hc.unique⟩,
      hcached, hfind⟩

/-- After the revival the other IPv6 address is still answered with the lease's IPv4 address. -/
private theorem Revived.other_answer (h : Inv g) {d : Nat} {g' : Gcfg} (hr : Revived g x d g') {y : In6} (hyx : y ≠ x)
    {l : Option Nat} {cp : Bool} (h4 : Found4 g (g.v4 d) ⟨y, l, cp⟩)
    (hy : Cached g (g.v4 d) y ∨ ∃ i, .static i ∈ g.map6List ∧ (g.statics i).map6.type = .static ∧
      (g.statics i).bits = 0 ∧ (g.statics i).map4.addr = g.v4 d ∧ y = (g.statics i).map6.addr) :
    (mapIp6ToIp4 (publish g' (g'.v4 d) x (some d) true) y false).1 = .ok (g.v4 d) := by
  have hs := sameMaps_publish hr.cache (g'.v4 d) x (some d) true
  have hc := hr.cache.publish (g'.v4 d) x (some d) true
  have hpair : ∀ b, Cached (publish g' (g'.v4 d) x (some d) true) b y ↔ Cached g b y := by
    intro b
    rw [cached_publish hr.cache, hr.cached]
    simp [hyx]
  rcases mapIp6ToIp4_cases (g := publish g' (g'.v4 d) x (some d) true) y false with ⟨c, -, hcy, e⟩ | ⟨hmiss, e⟩ <;>
    rw [e]
  · -- a hit is coherent with the state before, in which `y` is found for the lease's address only
    obtain ⟨hca, h6⟩ := hc.cached6_some hcy
    obtain ⟨l', hl'⟩ := h.coherent _ _ ((hpair _).1 ⟨c, hca, rfl, h6⟩)
    exact congrArg Except.ok ((resolve4_eq_ok.1 hl').inj h.maps h.valid h4)
  · rcases hy with hy | ⟨i, hi, ht, hbits, ha, rfl⟩
    · -- the pair of the other address is still in the cache
      exfalso
      obtain ⟨c, hca, h4c, h6c⟩ := (hpair _).2 hy
      rcases hmiss with h0 | hnone
      · have := (hc.size h0).2
        rw [this] at hca
        cases hca
      · exact hc.cached6_none.1 hnone c hca h6c
    · have hok := h.maps.static_ok6 hi
      have hf : Tayga.findMap6 g' (g.statics i).map6.addr = some (.static i) := by
        rw [hr.findMap6 _ hyx]
        exact h.maps.find6.2 ⟨hi, hok.fits.wf6.covers_addr⟩
      have h6 : Found6 g' (g.statics i).map6.addr ⟨staticAddr4 (g'.statics i) (g.statics i).map6.addr, none,
          (g'.statics i).cachePair⟩ := .static hf (by rw [hr.statics]; exact ht) fun h0 => by
        rw [hr.statics] at h0
        omega
      rw [slow6_false_fst, hs.resolve6, resolve6_eq_ok.2 h6, hr.statics, staticAddr4_of_host hok.fits hbits, ha]
      rfl

/-- A lookup that revives a shadowed lease does not lead back. -/
private theorem not_leadsBack_of_revives (h : Inv g) (hv : validateIp6Addr x = none) {dyn : Bool}
    (hb : RevivesShadowed g x dyn) : ¬ LeadsBack g x dyn := by
  obtain ⟨hp, hx, rfl, d, hre, hsh⟩ := hb
  intro hlb
  have hslow : mapIp6ToIp4 g x true = slow6 g x true := by
    unfold mapIp6ToIp4
    rw [hp]
  rcases assignDynamic_cases h hv hx with ⟨-, hnone⟩ | ⟨e, g', ea, hact⟩
  · rw [hre] at hnone
    cases hnone
  · have hed := hact.only d hre
    subst hed
    have hr := hact.revived h hx hre
    obtain ⟨y, l, cp, h4, hy⟩ := hsh.other h (hact.listed hre)
    obtain ⟨p, hp⟩ := exists_pool (.inr (hact.listed hre))
    have hown : g.v4 d ≠ g.localAddr4 :=
      (h.pool p hp).not_own d (Or.inr (by rw [← dormant_of_pool hp]; exact hact.listed hre))
    have hcov := h4.covered h.maps hown
    have hyx : y ≠ x := by
      rintro rfl
      exact hcov hx
    have hyv : validateIp6Addr y = none :=
      h4.valid h.maps h.valid hown fun i hi => h.maps.prefixLen_ne_zero_of_uncovered hx i hi
    -- the other address is its own canonical form before and after
    have hyc : canonical6 (publish (moveToMapped g' d) ((moveToMapped g' d).v4 d) x (some d) true) y = y := by
      rw [(sameMaps_publish hr.cache _ _ _ _).canonical6]
      have := h4.canonical h.maps
      unfold canonical6 at this ⊢
      rwa [hr.findMap6 y hyx, hr.statics]
    have hxc : canonical6 g x = x := by rw [canonical6, hx]
    unfold LeadsBack at hlb
    rw [hslow, slow6_of_assign hx ea] at hlb
    have hans := hr.other_answer h hyx h4 hy
    rw [← hr.v4] at hans
    have := (hlb _ rfl).2 y hyv (by rw [hyc]; exact hyv) (by rw [hr.v4] at hans ⊢; exact hans)
    rw [hyc, hxc] at this
    exact hyx this

/-- **Round trip from IPv6**, in every state reached from a startup by a run that revives no shadowed lease: the answer
leads back to the canonical form of the address and to no other one exactly when the lookup does not revive one. -/
theorem map_round_trip6 {libc : Libc} {e : Endian} {now : Int} {content : List Char} {sd : Option (List Char)}
    {rand : Nat → BitVec 32} {g₀ : Gcfg} (hs : startup libc e now content sd rand = .ok g₀) {es : List Event}
    (hrun : Run.Along (step libc) RevivesNothing (.start g₀) es) (hg : g = (Run.run (step libc) (.start g₀) es).map)
    (hv : validateIp6Addr x = none) (hvc : validateIp6Addr (canonical6 g x) = none) (dyn : Bool) :
    LeadsBack g x dyn ↔ ¬RevivesShadowed g x dyn := by
  have hinv : Inv g := hg ▸ ((startup_inv hs).start.run hrun).inv
  exact ⟨fun hlb hb => not_leadsBack_of_revives hinv hv hb hlb, leadsBack_of_not_revives hinv hv hvc⟩

/-- The lease of the host is idle, and its next packet brings it back. -/
theorem map_round_trip6_sample : ∃ g₀ g, sampleStart = .ok g₀ ∧
    g = (Run.run (step sampleLibc) (.start g₀) (sampleIdle "map 198.18.0.5 2001:db8::99")).map ∧
    (mapIp6ToIp4 g sampleHost true).1 = .ok 0xc6120004 ∧ LeadsBack g sampleHost true := by
  obtain ⟨g₀, hs, hrun, hc, hx, hr⟩ := start_any (r := sampleStart) (p := fun g₀ =>
    let g := (Run.run (step sampleLibc) (.start g₀) (sampleIdle "map 198.18.0.5 2001:db8::99")).map
    Run.Along (step sampleLibc) RevivesNothing (.start g₀) (sampleIdle "map 198.18.0.5 2001:db8::99") ∧
    validateIp6Addr (canonical6 g sampleHost) = none ∧ (mapIp6ToIp4 g sampleHost true).1 = .ok 0xc6120004 ∧
    ∀ d ∈ reactivated g sampleHost, ¬Shadowed g d) (by decide +kernel)
  refine ⟨g₀, _, hs, rfl, hx, (map_round_trip6 hs hrun rfl (by decide) hc true).2 ?_⟩
  rintro ⟨-, -, -, d, hd, hsh⟩
  exact hr d hd hsh

/-- The reload has given the IPv4 address of the host's idle lease to another host; the next packet of the host is
translated to that address all the same. -/
theorem map_round_trip6_shadowed : ∃ g, sampleStart = .ok g ∧
    let s := (Run.run (step sampleLibc) (.start g) (sampleIdle "map 198.18.0.4 2001:db8::99")).map
    Inv s ∧ validateIp6Addr sampleHost = none ∧ validateIp6Addr (canonical6 s sampleHost) = none ∧
    ¬ LeadsBack s sampleHost true := by
  obtain ⟨g, hs, ha, hc, h1, h2, h3, h4⟩ := start_any (r := sampleStart) (p := fun g =>
    let s := (Run.run (step sampleLibc) (.start g) (sampleIdle "map 198.18.0.4 2001:db8::99")).map
    let s' := (mapIp6ToIp4 s sampleHost true).2
    Run.Along (step sampleLibc) RevivesNothing (.start g) (sampleIdle "map 198.18.0.4 2001:db8::99") ∧
    validateIp6Addr (canonical6 s sampleHost) = none ∧ (mapIp6ToIp4 s sampleHost true).1 = .ok 0xc6120004 ∧
    validateIp6Addr (canonical6 s' sampleOther) = none ∧ (mapIp6ToIp4 s' sampleOther false).1 = .ok 0xc6120004 ∧
    canonical6 s' sampleOther ≠ canonical6 s sampleHost)
    (by decide +kernel)
  exact ⟨g, hs, ((startup_inv hs).start.run ha).inv, by decide, hc, fun hl => h4 ((hl _ h1).2 _ (by decide) h2 h3)⟩

end Tayga
