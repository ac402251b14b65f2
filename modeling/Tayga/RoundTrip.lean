import Tayga.Runs

/-!
# Mapping from IPv4 and back

The round trip of an IPv4 address in the states that are reached from a startup while no lookup revives a shadowed lease
(`map_round_trip4`): the way back gives the address back, except for a link-local address of a static subnet map that
no cache entry answers for, which the way back refuses.
-/

namespace Tayga

variable {g : Gcfg} {a : In4} {x : In6}

/-! ### From IPv4 and back -/

/-- `validate_ip4_addr` answers with one of two codes. -/
private theorem validateIp4Addr_cases (a : In4) :
    validateIp4Addr a = none ∨ validateIp4Addr a = some .drop ∨ validateIp4Addr a = some .local4 := by
  unfold validateIp4Addr
  split_ifs <;> simp

/-- The address is link-local and under a static subnet map, its pair is not in the cache, and it will not be put
there either: the pair must not be cached, there is no cache, or no free entry is left. -/
def LinkLocalMiss (g : Gcfg) (a : In4) : Prop :=
  validateIp4Addr a = some .local4 ∧ probe4 g a = none ∧
  ∃ i, findMap4 g a = some (.static i) ∧ (g.statics i).map4.type = .static ∧ (g.statics i).map4.prefixLen < 32 ∧
    (g.cacheSize = 0 ∨ (g.statics i).cachePair = false ∨ g.cachePool = [])

/-- After `map_ip4_to_ip6` the pairs in the cache are the old ones and, if the slow path ran, at most the new one. -/
private theorem cached_mapIp4ToIp6 (hc : CacheInv g) {f : Found In6} (hr : resolve4 g a = .ok f) (a' : In4) (x' : In6) :
    Cached (mapIp4ToIp6 g a).2 a' x' ↔ Cached g a' x' ∨
      (probe4 g a = none ∧ (g.cacheSize ≠ 0 ∧ f.cachePair = true ∧ g.cachePool ≠ []) ∧ a' = a ∧ x' = f.addr) := by
  unfold mapIp4ToIp6
  cases hp : probe4 g a with
  | none =>
    simp only [slow4, hr, true_and]
    exact cached_publish hc a f.addr f.lease f.cachePair a' x'
  | some r =>
    obtain ⟨y, g'⟩ := r
    unfold probe4 at hp
    split at hp
    · cases hp
    · cases hc4 : cached4 g a with
      | none =>
        rw [hc4] at hp
        cases hp
      | some c =>
        rw [hc4] at hp
        cases hp
        simp only [reduceCtorEq, false_and, or_false]
        exact (samePairs_touch c).cached a' x'

private theorem sameMaps_mapIp4ToIp6 (hc : CacheInv g) (a : In4) : SameMaps g (mapIp4ToIp6 g a).2 := by
  rcases mapIp4ToIp6_cases (g := g) a with ⟨c, -, -, e⟩ | ⟨-, e⟩ <;> rw [e]
  · exact sameMaps_touch c
  · unfold slow4
    cases resolve4 g a with
    | error e => exact SameMaps.refl g
    | ok f => exact sameMaps_publish hc a f.addr f.lease f.cachePair

/-- A pair in the cache makes the probe hit. -/
private theorem probe4_isSome (hc : CacheInv g) (h0 : g.cacheSize ≠ 0) (h : Cached g a x) : probe4 g a ≠ none := by
  obtain ⟨c, hca, h4, -⟩ := h
  unfold probe4
  rw [if_neg h0]
  cases hf : cached4 g a with
  | none => exact absurd h4 (hc.cached4_none.1 hf c hca)
  | some c' => simp

/-- A probe that hits in a coherent state has the pair that the slow path finds. -/
private theorem cached_of_probe4 (hc : CacheInv g) (hco : Coherent g) {f : Found In6} (hr : resolve4 g a = .ok f)
    (h : probe4 g a ≠ none) : g.cacheSize ≠ 0 ∧ Cached g a f.addr := by
  unfold probe4 at h
  split at h
  · exact absurd rfl h
  · rename_i h0
    cases hf : cached4 g a with
    | none =>
      rw [hf] at h
      exact absurd rfl h
    | some c =>
      obtain ⟨hca, h4⟩ := hc.cached4_some hf
      have hpair : Cached g a (g.entries c).addr6 := ⟨c, hca, h4, rfl⟩
      obtain ⟨l, hl⟩ := hco _ _ hpair
      rw [hr, Except.ok.injEq] at hl
      rw [hl]
      exact ⟨h0, hpair⟩

/-- In a state with the invariant the way back gives the address back exactly when it is not a link-local address of a
static subnet map that the cache does not answer for. -/
private theorem round_trip4_iff (h : Inv g) (ha : a ≠ g.localAddr4) (hd : validateIp4Addr a ≠ some .drop)
    (hx : (mapIp4ToIp6 g a).1 = .ok x) :
    (mapIp6ToIp4 (mapIp4ToIp6 g a).2 x false).1 = .ok a ↔ ¬ LinkLocalMiss g a := by
  rw [mapIp4ToIp6_fst h.cache h.coherent] at hx
  obtain ⟨f, hr, rfl⟩ : ∃ f, resolve4 g a = .ok f ∧ f.addr = x := by
    cases hr : resolve4 g a with
    | error e =>
      rw [hr] at hx
      cases hx
    | ok f =>
      rw [hr] at hx
      cases hx
      exact ⟨f, rfl, rfl⟩
  have h4 := resolve4_eq_ok.1 hr
  have h' := h.mapIp4ToIp6 a
  have hs := sameMaps_mapIp4ToIp6 h.cache a
  have hcached := cached_mapIp4ToIp6 h.cache hr
  rcases mapIp6ToIp4_cases (g := (mapIp4ToIp6 g a).2) f.addr false with ⟨c, h0, hc, e⟩ | ⟨hmiss, e⟩ <;> rw [e]
  · -- a hit: the pair is that of `a`, so it was in the cache already or has just been put there
    obtain ⟨hca, h6⟩ := h'.cache.cached6_some hc
    have hpair : Cached (mapIp4ToIp6 g a).2 ((mapIp4ToIp6 g a).2.entries c).addr4 f.addr := ⟨c, hca, rfl, h6⟩
    obtain ⟨l, hl⟩ := h'.coherent _ _ hpair
    rw [hs.resolve4] at hl
    have heq := (resolve4_eq_ok.1 hl).inj h.maps h.valid h4
    rw [heq] at hpair ⊢
    refine iff_of_true rfl ?_
    rintro ⟨-, hp, i, hfi, hti, -, hno⟩
    rw [hs.cacheSize] at h0
    rcases (hcached a f.addr).1 hpair with hca | ⟨-, ⟨-, hcp, hpool⟩, -⟩
    · exact probe4_isSome h.cache h0 hca hp
    · have hcp' : f.cachePair = (g.statics i).cachePair := by rw [(h4.of_static hfi hti).1]
      rcases hno with h1 | h1 | h1
      · exact h0 h1
      · rw [← hcp', hcp] at h1
        cases h1
      · exact hpool h1
  · -- a miss: the way back is the slow path
    rw [slow6_false_fst, hs.resolve6]
    have hnot : ¬ ((mapIp4ToIp6 g a).2.cacheSize ≠ 0 ∧ Cached (mapIp4ToIp6 g a).2 a f.addr) := by
      rintro ⟨h0, c, hca, -, h6⟩
      rcases hmiss with h1 | h1
      · exact h0 h1
      · exact h'.cache.cached6_none.1 h1 c hca h6
    constructor
    · rintro hok ⟨hloc, -, i, hfi, hti, hlen, -⟩
      obtain ⟨b, hb, hba⟩ : ∃ b, resolve6 g f.addr = .ok b ∧ b.addr = a := by
        cases hr6 : resolve6 g f.addr with
        | error e =>
          rw [hr6] at hok
          cases hok
        | ok b =>
          rw [hr6] at hok
          cases hok
          exact ⟨b, rfl, rfl⟩
      have hbits : 0 < (g.statics i).bits := by unfold MapStatic.bits; omega
      have hi6 := ((h4.of_static hfi hti).2 hbits).2.2
      have ht6 := (h.maps.static_ok i (h.maps.mem4 hfi).1).static6 hti
      have hv := (((resolve6_eq_ok.1 hb).of_static hi6 ht6).2 hbits).1
      rw [hba, hloc] at hv
      cases hv
    · intro hno
      have h6 := h4.found6 h.maps ha fun i hfi hti hb => by
        rcases validateIp4Addr_cases a with hv | hv | hv
        · exact hv
        · exact absurd hv hd
        · exfalso
          have hp : probe4 g a = none := by
            by_contra hp
            obtain ⟨h0, hca⟩ := cached_of_probe4 h.cache h.coherent hr hp
            exact hnot ⟨hs.cacheSize ▸ h0, (hcached a f.addr).2 (Or.inl hca)⟩
          refine hno ⟨hv, hp, i, hfi, hti, by unfold MapStatic.bits at hb; omega, ?_⟩
          by_contra hst
          simp only [not_or] at hst
          have hcp : f.cachePair = true := by
            rw [(h4.of_static hfi hti).1]
            simpa using hst.2.1
          exact hnot ⟨hs.cacheSize ▸ hst.1,
            (hcached a f.addr).2 (Or.inr ⟨hp, ⟨hst.1, hcp, hst.2.2⟩, rfl, rfl⟩)⟩
      rw [resolve6_eq_ok.2 h6]
      rfl

/-- **Round trip from IPv4**, in every state reached from a startup by a run that revives no shadowed lease. -/
theorem map_round_trip4 {libc : Libc} {e : Endian} {now : Int} {content : List Char} {sd : Option (List Char)}
    {rand : Nat → BitVec 32} {g₀ : Gcfg} (hs : startup libc e now content sd rand = .ok g₀) {es : List Event}
    (hrun : Run.Along (step libc) RevivesNothing (.start g₀) es) (hg : g = (Run.run (step libc) (.start g₀) es).map)
    (ha : a ≠ g.localAddr4) (hd : validateIp4Addr a ≠ some .drop) (hx : (mapIp4ToIp6 g a).1 = .ok x) :
    (mapIp6ToIp4 (mapIp4ToIp6 g a).2 x false).1 = .ok a ↔ ¬LinkLocalMiss g a := by
  have hinv : Inv g := hg ▸ ((startup_inv hs).start.run hrun).inv
  exact round_trip4_iff hinv ha hd hx

/-- The host has a lease, which has been idle and is in use again, and a line of the file maps another address. -/
theorem map_round_trip4_sample : ∃ g₀ g, sampleStart = .ok g₀ ∧
    g = (Run.run (step sampleLibc) (.start g₀) (sampleRun "map 198.18.0.5 2001:db8::99")).map ∧
    (mapIp4ToIp6 g 0xc6120004).1 = .ok sampleHost ∧
    (mapIp6ToIp4 (mapIp4ToIp6 g 0xc6120004).2 sampleHost false).1 = .ok 0xc6120004 := by
  obtain ⟨g₀, hs, hrun, hl, hx⟩ := start_any (r := sampleStart) (p := fun g₀ =>
    let g := (Run.run (step sampleLibc) (.start g₀) (sampleRun "map 198.18.0.5 2001:db8::99")).map
    Run.Along (step sampleLibc) RevivesNothing (.start g₀) (sampleRun "map 198.18.0.5 2001:db8::99") ∧
    0xc6120004 ≠ g.localAddr4 ∧ (mapIp4ToIp6 g 0xc6120004).1 = .ok sampleHost) (by decide +kernel)
  refine ⟨g₀, _, hs, rfl, hx, (map_round_trip4 hs hrun rfl hl (by decide) hx).2 ?_⟩
  exact fun hm => absurd hm.1 (by decide)

/-- A map for the link-local network is accepted, and its addresses are translated to IPv6 but not back. -/
theorem map_round_trip4_link_local : ∃ g, startWith "map 169.254.0.0/16 2001:db8:2::/112\n" = .ok g ∧ Inv g ∧
    (0xa9fe0101 : In4) ≠ g.localAddr4 ∧ validateIp4Addr 0xa9fe0101 ≠ some .drop ∧
    (mapIp4ToIp6 g 0xa9fe0101).1 = .ok 0x20010db8000200000000000000000101 ∧
    (mapIp6ToIp4 (mapIp4ToIp6 g 0xa9fe0101).2 0x20010db8000200000000000000000101 false).1 = .error .drop := by
  obtain ⟨g, hs, hl, hx, hb⟩ := start_any (r := startWith "map 169.254.0.0/16 2001:db8:2::/112\n") (p := fun g =>
    0xa9fe0101 ≠ g.localAddr4 ∧ (mapIp4ToIp6 g 0xa9fe0101).1 = .ok 0x20010db8000200000000000000000101 ∧
    (mapIp6ToIp4 (mapIp4ToIp6 g 0xa9fe0101).2 0x20010db8000200000000000000000101 false).1 = .error .drop)
    (by decide +kernel)
  exact ⟨g, hs, startup_inv hs, hl, by decide, hx, hb⟩

end Tayga
