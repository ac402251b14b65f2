import Tayga.Invariant

/-!
# What the slow paths find

`Found4` and `Found6` list the ways a slow path succeeds (`resolve4_eq_ok`, `resolve6_eq_ok`).  In a state that keeps
the invariant the two are inverse relations: an IPv4 result leads back to the canonical form of the IPv6 address
(`Found6.found4`), an IPv6 result back to the IPv4 address unless the reserved-address check of the way back refuses
it (`Found4.found6`), and no two IPv4 addresses are sent to one IPv6 address (`Found4.inj`).
-/

namespace Tayga

open BitPrefix

variable {g : Gcfg} {a : In4} {x : In6}

/-! ### The successful cases -/

/-- The ways the slow path of `map_ip4_to_ip6` succeeds. -/
inductive Found4 (g : Gcfg) (a : In4) : Found In6 → Prop
  | static {i : Nat} (hf : findMap4 g a = some (.static i)) (ht : (g.statics i).map4.type = .static)
      (hb : 0 < (g.statics i).bits → validateIp6Addr (staticAddr6 (g.statics i) a) = none ∧
        g.localAddr6 ≠ staticAddr6 (g.statics i) a ∧
        findMap6 g (staticAddr6 (g.statics i) a) = some (.static i)) :
      Found4 g a ⟨staticAddr6 (g.statics i) a, none, (g.statics i).cachePair⟩
  | rfc6052 {i : Nat} {x : In6} (hf : findMap4 g a = some (.static i)) (ht : (g.statics i).map4.type = .rfc6052)
      (hx : appendToPrefix g a (g.statics i).map6.addr (g.statics i).map6.prefixLen = .ok x) :
      Found4 g a ⟨x, none, true⟩
  | host {d : Nat} (hf : findMap4 g a = some (.host d)) : Found4 g a ⟨g.v6 d, some d, true⟩

/-- The ways the slow path of `map_ip6_to_ip4` succeeds without an assignment. -/
inductive Found6 (g : Gcfg) (x : In6) : Found In4 → Prop
  | static {i : Nat} (hf : findMap6 g x = some (.static i)) (ht : (g.statics i).map6.type = .static)
      (hb : 0 < (g.statics i).bits → validateIp4Addr (staticAddr4 (g.statics i) x) = none ∧
        g.localAddr4 ≠ staticAddr4 (g.statics i) x ∧
        findMap4 g (staticAddr4 (g.statics i) x) = some (.static i)) :
      Found6 g x ⟨staticAddr4 (g.statics i) x, none, (g.statics i).cachePair⟩
  | rfc6052 {i : Nat} {a : In4} (hf : findMap6 g x = some (.static i)) (ht : (g.statics i).map6.type = .rfc6052)
      (ha : extractFromPrefix g x (g.statics i).map6.prefixLen = .ok a)
      (hs : (isWkpf (g.statics i).map6.addr && g.wkpfStrict && isPrivateIp4Addr a) = false)
      (hr : findMap4 g a = some (.static i)) : Found6 g x ⟨a, none, true⟩
  | host {d : Nat} (hf : findMap6 g x = some (.host d)) : Found6 g x ⟨g.v4 d, some d, true⟩

/-- What is found under a static map. -/
theorem Found4.of_static {f : Found In6} (h : Found4 g a f) {i : Nat} (hf : findMap4 g a = some (.static i))
    (ht : (g.statics i).map4.type = .static) :
    f = ⟨staticAddr6 (g.statics i) a, none, (g.statics i).cachePair⟩ ∧
    (0 < (g.statics i).bits → validateIp6Addr f.addr = none ∧ g.localAddr6 ≠ f.addr ∧
      findMap6 g f.addr = some (.static i)) := by
  cases h with
  | static hf' _ hb =>
    rw [hf] at hf'
    cases hf'
    exact ⟨rfl, hb⟩
  | rfc6052 hf' ht' =>
    rw [hf] at hf'
    cases hf'
    rw [ht] at ht'
    cases ht'
  | host hf' =>
    rw [hf] at hf'
    cases hf'

/-- What is found under a static map, the other way. -/
theorem Found6.of_static {f : Found In4} (h : Found6 g x f) {i : Nat} (hf : findMap6 g x = some (.static i))
    (ht : (g.statics i).map6.type = .static) :
    f = ⟨staticAddr4 (g.statics i) x, none, (g.statics i).cachePair⟩ ∧
    (0 < (g.statics i).bits → validateIp4Addr f.addr = none ∧ g.localAddr4 ≠ f.addr ∧
      findMap4 g f.addr = some (.static i)) := by
  cases h with
  | static hf' _ hb =>
    rw [hf] at hf'
    cases hf'
    exact ⟨rfl, hb⟩
  | rfc6052 hf' ht' =>
    rw [hf] at hf'
    cases hf'
    rw [ht] at ht'
    cases ht'
  | host hf' =>
    rw [hf] at hf'
    cases hf'

theorem resolve4_eq_ok {f : Found In6} : resolve4 g a = .ok f ↔ Found4 g a f := by
  constructor
  · intro h
    unfold resolve4 at h
    split at h
    · cases h
    · rename_i m hf
      cases m with
      | static i =>
        simp only [switch4] at h
        split at h
        · rename_i ht
          split at h
          · rename_i hb
            split at h
            · cases h
            · rename_i hv
              split at h
              · cases h
              · rename_i hm
                cases h
                simp only [not_or, Option.not_isSome_iff_eq_none] at hv
                exact .static hf ht fun _ => ⟨hv.1, hv.2, not_not.1 hm⟩
          · rename_i hb
            cases h
            exact .static hf ht fun hb' => absurd hb' hb
        · rename_i ht
          split at h
          · cases h
          · rename_i hx
            cases h
            exact .rfc6052 hf ht hx
        · cases h
      | pool => cases h
      | host d =>
        cases h
        exact .host hf
  · intro h
    unfold resolve4
    cases h with
    | static hf ht hb =>
      rw [hf]
      simp only [switch4, ht]
      split
      · rename_i h0
        obtain ⟨h1, h2, h3⟩ := hb h0
        rw [if_neg (by simp [h1, h2]), if_neg (by simp [h3])]
      · rfl
    | rfc6052 hf ht hx =>
      rw [hf]
      simp only [switch4, ht, hx]
    | host hf =>
      rw [hf]
      rfl

theorem resolve6_eq_ok {f : Found In4} : resolve6 g x = .ok f ↔ Found6 g x f := by
  constructor
  · intro h
    unfold resolve6 at h
    split at h
    · cases h
    · rename_i m hf
      cases m with
      | static i =>
        simp only [switch6] at h
        split at h
        · rename_i ht
          split at h
          · rename_i hb
            split at h
            · cases h
            · rename_i hv
              split at h
              · cases h
              · rename_i hm
                cases h
                simp only [not_or, Option.not_isSome_iff_eq_none] at hv
                exact .static hf ht fun _ => ⟨hv.1, hv.2, not_not.1 hm⟩
          · rename_i hb
            cases h
            exact .static hf ht fun hb' => absurd hb' hb
        · rename_i ht
          split at h
          · cases h
          · rename_i ha
            split at h
            · cases h
            · rename_i hs
              split at h
              · cases h
              · rename_i hm
                cases h
                exact .rfc6052 hf ht ha (by simpa using hs) (not_not.1 hm)
        · cases h
      | pool => cases h
      | host d =>
        cases h
        exact .host hf
  · intro h
    unfold resolve6
    cases h with
    | static hf ht hb =>
      rw [hf]
      simp only [switch6, ht]
      split
      · rename_i h0
        obtain ⟨h1, h2, h3⟩ := hb h0
        rw [if_neg (by simp [h1, h2]), if_neg (by simp [h3])]
      · rfl
    | rfc6052 hf ht ha hs hr =>
      rw [hf]
      simp only [switch6, ht, ha, hs, Bool.false_eq_true, if_false]
      rw [if_neg (by simp [hr])]
    | host hf =>
      rw [hf]
      rfl

/-! ### Reserved IPv6 addresses -/

private theorem half6_zero (x : In6) : half6 x 0 = ((word6 x 0) >>> 16).setWidth 16 := by
  apply BitVec.eq_of_getLsbD_eq
  intro j hj
  simp only [half6, word6, BitVec.getLsbD_setWidth, BitVec.getLsbD_ushiftRight, hj, decide_true, Bool.true_and,
    show 16 + j < 32 by omega]
  congr 1
  omega

/-- Whether an IPv6 address is reserved depends on its first word only. -/
theorem validateIp6Addr_congr {x y : In6} (h : word6 x 0 = word6 y 0) : validateIp6Addr x = validateIp6Addr y := by
  have hb : byte6 x 0 = byte6 y 0 := by
    rw [byte6_eq x (by omega), byte6_eq y (by omega)]
    exact congrArg (byte4 · 0) h
  have hh : half6 x 0 = half6 y 0 := by rw [half6_zero, half6_zero, h]
  simp only [validateIp6Addr, h, hb, hh]

/-- The addresses of a network of at least 32 bits are reserved together. -/
theorem validateIp6Addr_of_inNet {x p : In6} {len : Nat} (hx : InNet x p len) (hl : 32 ≤ len) :
    validateIp6Addr x = validateIp6Addr p := by
  apply validateIp6Addr_congr
  apply BitVec.eq_of_getLsbD_eq
  intro i hi
  rw [getLsbD_word6 _ _ hi, getLsbD_word6 _ _ hi]
  exact hx.agree _ (by omega)

theorem validateIp6Addr_zero : validateIp6Addr 0 = some .drop := by decide

/-! ### Entries of well-formed lists -/

theorem StaticOk.static6 {s : MapStatic} (h : StaticOk s) (ht : s.map4.type = .static) : s.map6.type = .static := by
  rcases h.kind with ⟨-, h⟩ | ⟨h, -⟩
  · exact h
  · rw [ht] at h
    cases h

theorem StaticOk.static4 {s : MapStatic} (h : StaticOk s) (ht : s.map6.type = .static) : s.map4.type = .static := by
  rcases h.kind with ⟨h, -⟩ | ⟨-, h, -⟩
  · exact h
  · rw [ht] at h
    cases h

theorem StaticOk.rfc6 {s : MapStatic} (h : StaticOk s) (ht : s.map4.type = .rfc6052) :
    s.map6.type = .rfc6052 ∧ s.map6.prefixLen ∈ prefixLens := by
  rcases h.kind with ⟨h, -⟩ | ⟨-, h, -, h'⟩
  · rw [ht] at h
    cases h
  · exact ⟨h, h'⟩

theorem StaticOk.rfc4 {s : MapStatic} (h : StaticOk s) (ht : s.map6.type = .rfc6052) :
    s.map4.type = .rfc6052 ∧ s.map6.prefixLen ∈ prefixLens := by
  rcases h.kind with ⟨-, h⟩ | ⟨h, -, -, h'⟩
  · rw [ht] at h
    cases h
  · exact ⟨h, h'⟩

theorem prefixLens_ge {len : Nat} (h : len ∈ prefixLens) : 32 ≤ len := by
  simp only [prefixLens, List.mem_cons, List.not_mem_nil, or_false] at h
  omega

theorem TablesInv.mem4 (hm : TablesInv g) {m : MapRef} (h : findMap4 g a = some m) :
    m ∈ g.map4List ∧ (g.map4 m).covers a = true :=
  have := hm.list4.find_eq_some.1 h
  ⟨this.1, this.2.1⟩

theorem TablesInv.find6 (hm : TablesInv g) {m : MapRef} :
    findMap6 g x = some m ↔ m ∈ g.map6List ∧ (g.map6 m).covers x = true := hm.list6.find_eq_some

/-- The IPv6 halves of the static entries are networks of their entry. -/
theorem TablesInv.static_ok6 (hm : TablesInv g) {i : Nat} (h : .static i ∈ g.map6List) : StaticOk (g.statics i) :=
  hm.static_ok i (hm.pair64 i h)

/-- The entry of an address that is not the translator's own has both halves in the lists. -/
theorem TablesInv.mem6_of_find4 (hm : TablesInv g) (ha : a ≠ g.localAddr4) {i : Nat}
    (h : findMap4 g a = some (.static i)) : .static i ∈ g.map6List := by
  obtain ⟨hmem, hc⟩ := hm.mem4 h
  rcases hm.pair46 i hmem with h6 | hown
  · exact h6
  · have hc' : (g.statics i).map4.covers a = true := hc
    have hl : (g.statics i).map4.prefixLen = 32 := by rw [hown.1]
    have haddr : a = (g.statics i).map4.addr := ((hm.static_ok i hmem).fits.wf4.covers_host hl).1 hc'
    rw [hown.1] at haddr
    exact absurd haddr ha

/-- The translator's own IPv6 address belongs to its own entry, or to the prefix it was derived from. -/
theorem TablesInv.find6_own (hm : TablesInv g) (hv : validateIp6Addr g.localAddr6 = none) :
    ∃ i, findMap6 g g.localAddr6 = some (.static i) ∧ (IsOwn g i ∨ (g.statics i).map6.type = .rfc6052) := by
  obtain ⟨j, hj, hown, hj6 | ⟨k, hk, hkt, hk0 | hka⟩⟩ := hm.own
  · have hcj : (g.map6 (.static j)).covers g.localAddr6 = true := by
      have hw := (hm.static_ok j hj).fits.wf6
      have : (g.statics j).map6.addr = g.localAddr6 := by rw [hown.2]
      rw [← this]
      exact hw.covers_addr
    exact ⟨j, hm.find6.2 ⟨hj6, hcj⟩, Or.inl hown⟩
  · rw [hk0, validateIp6Addr_zero] at hv
    cases hv
  · have hok := hm.static_ok6 hk
    have hlen := (hok.rfc4 hkt).2
    have hin := inNet_of_append hlen hok.fits.wf6.normal hka
    exact ⟨k, hm.find6.2 ⟨hk, hok.fits.wf6.covers_iff.2 hin⟩, Or.inr hkt⟩

/-- A static map with host bits does not reach the translator's own IPv6 address. -/
private theorem TablesInv.own_not_covered (hm : TablesInv g) {i : Nat} (hi : .static i ∈ g.map6List)
    (ht : (g.statics i).map6.type = .static) (hb : 0 < (g.statics i).bits)
    (hc : (g.statics i).map6.covers x = true) (hv : validateIp6Addr x = none) : g.localAddr6 ≠ x := by
  rintro rfl
  obtain ⟨j, hj, hown⟩ := hm.find6_own hv
  have heq : some (MapRef.static j) = some (MapRef.static i) := hj.symm.trans (hm.find6.2 ⟨hi, hc⟩)
  cases heq
  rcases hown with hown | hrfc
  · rw [MapStatic.bits, hown.1] at hb
    simp at hb
  · rw [ht] at hrfc
    cases hrfc

/-! ### From IPv4 to IPv6 and back -/

/-- The translator's own entry has no host bits, so a static map with host bits does not find its IPv4 address. -/
private theorem TablesInv.ne_own_of_bits (hm : TablesInv g) {i : Nat} (hf : findMap4 g a = some (.static i))
    (hb : 0 < (g.statics i).bits) : a ≠ g.localAddr4 := by
  rintro rfl
  obtain ⟨j, hj, hown, -⟩ := hm.own
  have hj4 : (g.map4 (.static j)) = ⟨g.localAddr4, ip4Mask 32, 32, .static⟩ := hown.map4
  have hfj := hm.list4.find_host hj (by rw [hj4])
  rw [hj4] at hfj
  cases hfj.symm.trans hf
  rw [MapStatic.bits, hown.map4] at hb
  simp at hb

/-- An IPv6 result leads back to the IPv4 address when the entry has both halves in the lists, unless a static map's
way back refuses the address. -/
theorem Found4.found6_of_mem (hm : MapsInv g) {l : Option Nat} {cp : Bool} (h : Found4 g a ⟨x, l, cp⟩)
    (hmem6 : ∀ i, findMap4 g a = some (.static i) → .static i ∈ g.map6List)
    (hv : ∀ i, findMap4 g a = some (.static i) → (g.statics i).map4.type = .static → 0 < (g.statics i).bits →
      validateIp4Addr a = none) : Found6 g x ⟨a, l, cp⟩ := by
  cases h with
  | @static i hf ht hb =>
    have hmem := hm.mem4 hf
    have hok := hm.static_ok i hmem.1
    have hback : staticAddr4 (g.statics i) (staticAddr6 (g.statics i) a) = a :=
      staticAddr4_staticAddr6 hok.fits hmem.2
    have ht6 := hok.static6 ht
    have h6 : findMap6 g (staticAddr6 (g.statics i) a) = some (.static i) :=
      hm.find6.2 ⟨hmem6 i hf, covers_staticAddr6 hok.fits a⟩
    have := Found6.static h6 ht6 fun h0 => by
      rw [hback]
      exact ⟨hv i hf ht h0, (hm.ne_own_of_bits hf h0).symm, hf⟩
    rwa [hback] at this
  | @rfc6052 i _ hf ht hx =>
    have hok := hm.static_ok i (hm.mem4 hf).1
    obtain ⟨ht6, hlen⟩ := hok.rfc6 ht
    have hn := hok.fits.wf6.normal
    have h6 : findMap6 g x = some (.static i) :=
      hm.find6.2 ⟨hmem6 i hf, hok.fits.wf6.covers_iff.2 (inNet_of_append hlen hn hx)⟩
    exact .rfc6052 h6 ht6 (extractFromPrefix_of_append hlen hn hx) ((appendToPrefix_eq_ok hlen hn).1 hx).2.1 hf
  | @host d hf =>
    have hmem := hm.mem4 hf
    have hd := hm.host4 d hmem.1
    have hok := hm.host_ok d (Or.inl hd)
    have h6 := hm.listed6 d hd
    have ha4 : a = g.v4 d :=
      ((hm.list4.wf _ hmem.1).covers_host (by rw [Gcfg.map4, hok.map4])).1 hmem.2
    rw [ha4]
    exact .host (hm.find6.2 ⟨h6, (hm.list6.wf _ h6).covers_addr⟩)

/-- An IPv6 result for a foreign address leads back to it, unless a static map's way back refuses it. -/
theorem Found4.found6 (hm : MapsInv g) (ha : a ≠ g.localAddr4) {l : Option Nat} {cp : Bool}
    (h : Found4 g a ⟨x, l, cp⟩)
    (hv : ∀ i, findMap4 g a = some (.static i) → (g.statics i).map4.type = .static → 0 < (g.statics i).bits →
      validateIp4Addr a = none) : Found6 g x ⟨a, l, cp⟩ :=
  h.found6_of_mem hm (fun _ hf => hm.mem6_of_find4 ha hf) hv

/-! ### From IPv6 to IPv4 and back -/

/-- The canonical form of an IPv6 address: under a static map the bits behind the suffix are zero. -/
def canonical6 (g : Gcfg) (x : In6) : In6 :=
  match findMap6 g x with
  | some (.static i) => if (g.statics i).map6.type = .static then (g.statics i).canonical x else x
  | _ => x

/-- An IPv4 result leads back to the canonical form of the IPv6 address. -/
theorem Found6.found4 (hm : MapsInv g) {l : Option Nat} {cp : Bool} (h : Found6 g x ⟨a, l, cp⟩)
    (hv : validateIp6Addr (canonical6 g x) = none) : Found4 g a ⟨canonical6 g x, l, cp⟩ := by
  cases h with
  | @static i hf ht hb =>
    have hcan : canonical6 g x = (g.statics i).canonical x := by
      rw [canonical6, hf]
      simp only [ht, if_true]
    obtain ⟨h6, hc⟩ := hm.find6.1 hf
    have hc' : (g.statics i).map6.covers x = true := hc
    have h4 := hm.pair64 i h6
    have hok := hm.static_ok i h4
    have ht4 := hok.static4 ht
    have hforth : staticAddr6 (g.statics i) (staticAddr4 (g.statics i) x) = canonical6 g x := by
      rw [staticAddr6_staticAddr4 hok.fits hc', hcan]
    have hcov : (g.statics i).map6.covers (canonical6 g x) = true := by
      rw [hcan]
      exact covers_canonical hok.fits hc'
    have hf4 : findMap4 g (staticAddr4 (g.statics i) x) = some (.static i) := by
      by_cases h0 : 0 < (g.statics i).bits
      · exact (hb h0).2.2
      · rw [staticAddr4_of_host hok.fits (by omega)]
        have hl : (g.map4 (.static i)).prefixLen = 32 := by
          have := hok.fits.bits_eq
          rw [Gcfg.map4]
          omega
        exact hm.list4.find_host h4 hl
    have := Found4.static hf4 ht4 fun h0 => by
      rw [hforth]
      exact ⟨hv, hm.own_not_covered h6 ht h0 hcov hv, hm.find6.2 ⟨h6, hcov⟩⟩
    rwa [hforth] at this
  | @rfc6052 i _ hf ht ha hs hr =>
    have hcan : canonical6 g x = x := by
      rw [canonical6, hf]
      simp only [ht, reduceCtorEq, if_false]
    obtain ⟨h6, hc⟩ := hm.find6.1 hf
    have hok := hm.static_ok6 h6
    obtain ⟨ht4, hlen⟩ := hok.rfc4 ht
    rw [hcan]
    exact .rfc6052 hr ht4 (appendToPrefix_of_extract hlen (hok.fits.wf6.covers_iff.1 hc) ha hs)
  | @host d hf =>
    have hcan : canonical6 g x = x := by rw [canonical6, hf]
    obtain ⟨h6, hc⟩ := hm.find6.1 hf
    have hd := hm.host6 d h6
    have hok := hm.host_ok d (Or.inl hd)
    have hx : x = g.v6 d := ((hm.list6.wf _ h6).covers_host (by rw [Gcfg.map6, hok.map6])).1 hc
    have h4 : findMap4 g (g.v4 d) = some (.host d) :=
      hm.list4.find_host (hm.listed4 d hd) (by rw [Gcfg.map4, hok.map4])
    rw [hcan, hx]
    exact .host h4

/-! ### No two IPv4 addresses share an IPv6 address -/

/-- The IPv4 address that an entry of the IPv6 list stands for at `x`, before any check. -/
private def behind (g : Gcfg) (x : In6) : MapRef → Option In4
  | .static i =>
    if (g.statics i).map6.type = .static then some (staticAddr4 (g.statics i) x)
    else (extractFromPrefix g x (g.statics i).map6.prefixLen).toOption
  | .pool => none
  | .host d => some (g.v4 d)

/-- In a list with an RFC 6052 prefix no entry covers everything. -/
private theorem prefixLen_ne_zero (hm : MapsInv g) (hd : DerivedOwn g) {i : Nat} (hi : .static i ∈ g.map6List) :
    (g.statics i).map6.prefixLen ≠ 0 := by
  intro h0
  obtain ⟨j, hj, hjt, -⟩ := hd
  have hlen := ((hm.static_ok6 hj).rfc4 hjt).2
  have hwi := (hm.static_ok6 hi).fits.wf6
  have hci : (g.map6 (.static i)).covers (g.statics j).map6.addr = true := by
    have hzero : (g.statics i).map6.addr = 0#128 := by
      have := hwi.normal
      rw [BitPrefix.Normal, h0, mask_zero, BitVec.and_zero] at this
      exact this.symm
    refine hwi.covers_iff.2 ?_
    rw [h0, inNet_zero]
    exact hzero
  have hcj : (g.map6 (.static j)).covers (g.statics j).map6.addr = true := (hm.static_ok6 hj).fits.wf6.covers_addr
  have heq : some (MapRef.static i) = some (MapRef.static j) :=
    (hm.find6.2 ⟨hi, hci⟩).symm.trans (hm.find6.2 ⟨hj, hcj⟩)
  cases heq
  have := prefixLens_ge hlen
  omega

/-- An IPv6 result for a foreign address is not reserved. -/
theorem Found4.valid (hm : MapsInv g) (hl : LeasesValid g) (ha : a ≠ g.localAddr4) {l : Option Nat} {cp : Bool}
    (h : Found4 g a ⟨x, l, cp⟩) (h0 : ∀ i, .static i ∈ g.map6List → (g.statics i).map6.prefixLen ≠ 0) :
    validateIp6Addr x = none := by
  cases h with
  | @static i hf ht hb =>
    by_cases hbits : 0 < (g.statics i).bits
    · exact (hb hbits).1
    · have hi := hm.mem6_of_find4 ha hf
      rw [staticAddr6_of_host (hm.static_ok6 hi).fits (by omega)]
      exact hm.valid6 i hi (h0 i hi)
  | @rfc6052 i _ hf ht hx =>
    have hi := hm.mem6_of_find4 ha hf
    have hok := hm.static_ok6 hi
    have hlen := (hok.rfc6 ht).2
    rw [validateIp6Addr_of_inNet (inNet_of_append hlen hok.fits.wf6.normal hx) (prefixLens_ge hlen)]
    exact hm.valid6 i hi (h0 i hi)
  | @host d hf => exact hl d (Or.inl (hm.host4 d (hm.mem4 hf).1))

/-- The entry of the IPv6 list at a result stands for the IPv4 address, and the result is in canonical form; the only
exception is the translator's own address when its derivation failed. -/
private theorem Found4.behind (hm : MapsInv g) {l : Option Nat} {cp : Bool} (h : Found4 g a ⟨x, l, cp⟩) :
    (a = g.localAddr4 ∧ x = 0 ∧ DerivedOwn g) ∨
    ∃ m, findMap6 g x = some m ∧ behind g x m = some a ∧ canonical6 g x = x := by
  cases h with
  | @static i hf ht hb =>
    have hmem := hm.mem4 hf
    have hok := hm.static_ok i hmem.1
    have hback : staticAddr4 (g.statics i) (staticAddr6 (g.statics i) a) = a :=
      staticAddr4_staticAddr6 hok.fits hmem.2
    have ht6 := hok.static6 ht
    by_cases h6 : .static i ∈ g.map6List
    · have h6' : findMap6 g (staticAddr6 (g.statics i) a) = some (.static i) :=
        hm.find6.2 ⟨h6, covers_staticAddr6 hok.fits a⟩
      refine Or.inr ⟨.static i, h6', ?_, ?_⟩
      · simp only [Tayga.behind, ht6, if_true, hback]
      · rw [canonical6, h6']
        simp only [ht6, if_true]
        rw [← staticAddr6_staticAddr4 hok.fits (covers_staticAddr6 hok.fits a), hback]
    · have hown : IsOwn g i := (hm.pair46 i hmem.1).resolve_left h6
      have hl : (g.statics i).map4.prefixLen = 32 := by rw [hown.1]
      have haddr : a = g.localAddr4 := by
        have := (hok.fits.wf4.covers_host hl).1 hmem.2
        rwa [hown.1] at this
      have hx : staticAddr6 (g.statics i) a = g.localAddr6 := by
        rw [staticAddr6_of_host hok.fits (by rw [MapStatic.bits, hl]), hown.2]
      obtain ⟨j, hj, hjown, hj6 | hd⟩ := hm.own
      · have hji : j = i := by
          have := hm.list4.distinct _ hj _ hmem.1 (by
            simp only [Map4.same, Gcfg.map4, hjown.1, hown.1, decide_true, Bool.and_self])
          cases this
          rfl
        exact absurd (hji ▸ hj6) h6
      · obtain ⟨k, hk, hkt, hk0 | hka⟩ := id hd
        · exact Or.inl ⟨haddr, hx.trans hk0, hd⟩
        · have hokk := hm.static_ok6 hk
          have hlen := (hokk.rfc4 hkt).2
          have hn := hokk.fits.wf6.normal
          have hk6 : findMap6 g g.localAddr6 = some (.static k) :=
            hm.find6.2 ⟨hk, hokk.fits.wf6.covers_iff.2 (inNet_of_append hlen hn hka)⟩
          rw [hx]
          refine Or.inr ⟨.static k, hk6, ?_, ?_⟩
          · rw [haddr]
            simp only [Tayga.behind, hkt, reduceCtorEq, if_false, extractFromPrefix_of_append hlen hn hka]
            rfl
          · rw [canonical6, hk6]
            simp only [hkt, reduceCtorEq, if_false]
  | @rfc6052 i _ hf ht hx =>
    have hmem := hm.mem4 hf
    have hok := hm.static_ok i hmem.1
    obtain ⟨ht6, hlen⟩ := hok.rfc6 ht
    have hn := hok.fits.wf6.normal
    have h6 : .static i ∈ g.map6List := by
      rcases hm.pair46 i hmem.1 with h6 | hown
      · exact h6
      · rw [hown.1] at ht
        cases ht
    have h6' : findMap6 g x = some (.static i) :=
      hm.find6.2 ⟨h6, hok.fits.wf6.covers_iff.2 (inNet_of_append hlen hn hx)⟩
    refine Or.inr ⟨.static i, h6', ?_, ?_⟩
    · simp only [Tayga.behind, ht6, reduceCtorEq, if_false, extractFromPrefix_of_append hlen hn hx]
      rfl
    · rw [canonical6, h6']
      simp only [ht6, reduceCtorEq, if_false]
  | @host d hf =>
    have hmem := hm.mem4 hf
    have hd := hm.host4 d hmem.1
    have hok := hm.host_ok d (Or.inl hd)
    have h6 := hm.listed6 d hd
    have ha4 : a = g.v4 d := ((hm.list4.wf _ hmem.1).covers_host (by rw [Gcfg.map4, hok.map4])).1 hmem.2
    have h6' : findMap6 g (g.v6 d) = some (.host d) := hm.find6.2 ⟨h6, (hm.list6.wf _ h6).covers_addr⟩
    exact Or.inr ⟨.host d, h6', by rw [ha4]; rfl, by rw [canonical6, h6']⟩

/-- Two IPv4 addresses are never sent to one IPv6 address. -/
theorem Found4.inj (hm : MapsInv g) (hl : LeasesValid g) {a' : In4} {l l' : Option Nat} {cp cp' : Bool}
    (h : Found4 g a ⟨x, l, cp⟩) (h' : Found4 g a' ⟨x, l', cp'⟩) : a = a' := by
  have hzero : ∀ {b : In4} {k : Option Nat} {c : Bool}, Found4 g b ⟨x, k, c⟩ → x = 0 → DerivedOwn g →
      b = g.localAddr4 := by
    intro b k c hb hx hd
    by_contra hne
    have hv := hb.valid hm hl hne fun i hi => prefixLen_ne_zero hm hd hi
    rw [hx, validateIp6Addr_zero] at hv
    cases hv
  rcases h.behind hm with ⟨ha, hx, hd⟩ | ⟨m, hf, hb, -⟩
  · rw [ha, hzero h' hx hd]
  · rcases h'.behind hm with ⟨ha', hx, hd⟩ | ⟨m', hf', hb', -⟩
    · rw [ha', hzero h hx hd]
    · rw [hf, Option.some.injEq] at hf'
      rw [← hf', hb, Option.some.injEq] at hb'
      exact hb'

/-- An IPv6 result is in canonical form. -/
theorem Found4.canonical (hm : MapsInv g) {l : Option Nat} {cp : Bool} (h : Found4 g a ⟨x, l, cp⟩) :
    canonical6 g x = x := by
  rcases h.behind hm with ⟨-, rfl, hd⟩ | ⟨m, -, -, hc⟩
  · unfold canonical6
    cases hf : findMap6 g 0 with
    | none => rfl
    | some m =>
      cases m with
      | static i =>
        -- the network of the entry would start at zero
        exfalso
        have hmem := hm.find6.1 hf
        have hin : InNet 0 (g.statics i).map6.addr (g.statics i).map6.prefixLen :=
          (hm.static_ok6 hmem.1).fits.wf6.covers_iff.1 hmem.2
        have hbase : (g.statics i).map6.addr = 0 := by simpa [InNet] using hin
        have hv := hm.valid6 i hmem.1 (prefixLen_ne_zero hm hd hmem.1)
        rw [hbase, validateIp6Addr_zero] at hv
        cases hv
      | pool => rfl
      | host d => rfl
  · exact hc

/-- An IPv6 result for a foreign address has an entry. -/
theorem Found4.covered (hm : MapsInv g) (ha : a ≠ g.localAddr4) {l : Option Nat} {cp : Bool}
    (h : Found4 g a ⟨x, l, cp⟩) : findMap6 g x ≠ none := by
  rcases h.behind hm with ⟨he, -, -⟩ | ⟨m, hf, -, -⟩
  · exact absurd he ha
  · rw [hf]
    exact Option.some_ne_none m

end Tayga
