import Tayga.Startup

/-!
# The translator's own addresses

After validation the translator's IPv4 address belongs to its own entry, and its IPv6 address is that of the entry or is
derived from the configured prefix, unless it is zero (`TablesInv.ownAddresses`).  The prefix is taken from the end of
the IPv6 list, so the derivation succeeds exactly when no other map stands behind it (`own_address_derived`).
-/

namespace Tayga

open FirstMatch

variable {g g' : Gcfg} {libc : Libc}

/-! ### The own addresses after validation -/

/-- The own addresses fit together: the IPv4 address is found at the own entry, and the IPv6 address is that of the
entry in the list, or the IPv4 address under the configured prefix. -/
structure OwnAddresses (g : Gcfg) : Prop where
  set : g.localAddr6 ≠ 0
  valid : validateIp6Addr g.localAddr6 = none
  own : ∃ i, findMap4 g g.localAddr4 = some (.static i) ∧ (g.statics i).origin = .self ∧
    (.static i ∈ g.map6List ∧ (g.statics i).map6.addr = g.localAddr6 ∨
      ∃ j, .static j ∈ g.map6List ∧ (g.statics j).map6.type = .rfc6052 ∧
        appendToPrefix g g.localAddr4 (g.statics j).map6.addr (g.statics j).map6.prefixLen = .ok g.localAddr6)

/-- A derived address is not reserved. -/
private theorem ListsInv.valid_append {exempt : Nat → Prop} (h : ListsInv g exempt) {j : Nat}
    (hj : .static j ∈ g.map6List) (ht : (g.statics j).map6.type = .rfc6052) {a : In4} {x : In6}
    (hx : appendToPrefix g a (g.statics j).map6.addr (g.statics j).map6.prefixLen = .ok x) :
    validateIp6Addr x = none := by
  have hok := h.static_ok j (h.pair64 j hj)
  have hlen := (hok.rfc4 ht).2
  have hge := prefixLens_ge hlen
  rw [validateIp6Addr_of_inNet (inNet_of_append hlen hok.fits.wf6.normal hx) hge]
  exact h.valid6 j hj (by omega)

private theorem ne_zero_of_valid6 {x : In6} (h : validateIp6Addr x = none) : x ≠ 0 := by
  rintro rfl
  rw [validateIp6Addr_zero] at h
  cases h

/-- In the tables of a state only a zero address spoils the own addresses. -/
private theorem TablesInv.ownAddresses (h : TablesInv g) : OwnAddresses g ↔ g.localAddr6 ≠ 0 := by
  refine ⟨OwnAddresses.set, fun hne => ?_⟩
  obtain ⟨i, hi, ho, hd⟩ := h.own
  have hfind : findMap4 g g.localAddr4 = some (.static i) := by
    have hm4 : g.map4 (.static i) = ⟨g.localAddr4, ip4Mask 32, 32, .static⟩ := ho.map4
    have hf := h.list4.find_host hi (by rw [hm4])
    rw [hm4] at hf
    rw [findMap4_eq]
    exact hf
  have haddr : (g.statics i).map6.addr = g.localAddr6 := by rw [ho.map6]
  rcases hd with hd | ⟨j, hj, ht, hd⟩
  · refine ⟨hne, ?_, i, hfind, ho.origin, Or.inl ⟨hd, haddr⟩⟩
    rw [← haddr]
    exact h.valid6 i hd (by rw [ho.map6]; simp)
  · have happ := hd.resolve_left hne
    exact ⟨hne, h.valid_append hj ht happ, i, hfind, ho.origin, Or.inr ⟨j, hj, ht, happ⟩⟩

/-- The address stays zero only where its derivation failed and `wkpf-strict` is off: the IPv4 address is then one that
`append_to_prefix` does not take. -/
private theorem localAddr6_insertSelf (h : ConfInv g) (hr : insertSelf g = .ok g') : g'.localAddr6 ≠ 0 ↔
    g.localAddr6 ≠ 0 ∨ g.wkpfStrict = true ∨ validateIp4Addr g.localAddr4 = none := by
  obtain ⟨-, -, hl⟩ := (insertSelf_eq_ok h).1 hr
  unfold linkSelf6 at hl
  split at hl
  · cases hl
  split at hl
  · rename_i h6
    obtain ⟨-, rfl⟩ := insertMap6_eq_ok.1 (orReject_eq_ok.1 hl)
    have hne : g.localAddr6 ≠ 0 := fun h0 => h6 (by rw [h0]; decide)
    exact iff_of_true hne (Or.inl hne)
  · rename_i h6
    have hzero : g.localAddr6 = 0 := h.own6.resolve_right fun hv => word6_ne_zero hv (not_not.1 h6)
    split at hl
    · cases hl
    rename_i r hlast
    have hmem := List.mem_of_getLast? hlast
    obtain ⟨j, rfl⟩ := h.static_of_rfc6052 hmem
    split at hl
    · cases hl
    rename_i ht
    have hok := h.lists.static_ok j (h.lists.pair64 j hmem)
    have hlen := (hok.rfc4 (not_not.1 ht)).2
    split at hl
    · rename_i a ha
      cases hl
      have hv := h.lists.valid_append hmem (not_not.1 ht) ha
      exact iff_of_true (ne_zero_of_valid6 hv) (Or.inr (Or.inr ((appendToPrefix_eq_ok hlen
        hok.fits.wf6.normal).1 ha).1))
    · rename_i err he
      split at hl
      · cases hl
      rename_i hw
      cases hl
      refine iff_of_false (fun hne => hne hzero) ?_
      rintro (hne | hstrict | hv)
      · exact hne hzero
      · exact hw hstrict
      · -- with the rule of the well-known prefix off an address that passes is appended
        have happ := (appendToPrefix_eq_ok (g := g) hlen hok.fits.wf6.normal).2 ⟨hv, by simp [hw], rfl⟩
        have he' : appendToPrefix g g.localAddr4 (g.statics j).map6.addr (g.statics j).map6.prefixLen = .error err :=
          he
        rw [happ] at he'
        cases he'

/-- What a validation reads of the configuration: the steps before the own entry is inserted leave it alone. -/
private theorem settled_frame {sd : Option (List Char)} {g₁ : Gcfg} (h : stateDirectory g sd = .ok g₁) :
    SameConf g (settled g₁) ∧ (settled g₁).localAddr4 = g.localAddr4 ∧ (settled g₁).localAddr6 = g.localAddr6 ∧
      (settled g₁).wkpfStrict = g.wkpfStrict ∧ (settled g₁).endian = g.endian ∧ (settled g₁).oom = g.oom ∧
      (settled g₁).tundev = g.tundev := by
  obtain ⟨d, rfl⟩ := stateDirectory_eq_ok h
  obtain ⟨b, n, heq⟩ := settled_eq { g with dataDir := d }
  rw [heq]
  exact ⟨by constructor <;> rfl, rfl, rfl, rfl, rfl, rfl, rfl⟩

theorem SelfInserted.tundev (h : SelfInserted g g') : g'.tundev = g.tundev := by
  cases h <;> rfl

private theorem clamped_frame (g : Gcfg) : (clamped g).localAddr6 = g.localAddr6 ∧ (clamped g).tundev = g.tundev := by
  obtain ⟨n, heq⟩ := clamped_eq g
  rw [heq]
  exact ⟨rfl, rfl⟩

/-- **The own addresses after validation** fit together, except when `ipv6-addr` is absent, `wkpf-strict` is off and the
IPv4 address is one that is not appended to a prefix. -/
theorem own_addresses {e : Endian} {now : Int} {content : List Char} {sd : Option (List Char)}
    (hc : configRead (configInit e now) libc content = .ok g) (hv : configValidate g sd = .ok g') :
    OwnAddresses g' ↔ g.localAddr6 ≠ 0 ∨ g.wkpfStrict = true ∨ validateIp4Addr g.localAddr4 = none := by
  have hconf := (confInv_configInit e now).configRead hc
  have hmaps := (hconf.configValidate hv).maps
  obtain ⟨g₁, g₂, h1, h2, rfl⟩ := configValidate_eq_ok hv
  obtain ⟨-, e4, e6, ew, -⟩ := settled_frame h1
  rw [hmaps.ownAddresses, (clamped_frame g₂).1, localAddr6_insertSelf (hconf.stateDirectory h1).settled h2, e4, e6, ew]

/-! ### The order of the IPv6 list -/

/-- The number of an entry: static ones are numbered in the order of the file. -/
def MapRef.number : MapRef → Nat
  | .static i => i
  | .pool => 0
  | .host d => d

/-- An entry that stands before another one in the IPv6 list: its prefix is longer, or as long and read earlier. -/
def Before (g : Gcfg) (m n : MapRef) : Prop :=
  (g.map6 n).prefixLen < (g.map6 m).prefixLen ∨
    (g.map6 n).prefixLen = (g.map6 m).prefixLen ∧ m.number < n.number

private theorem Before.asymm {m n : MapRef} (h : Before g m n) : ¬Before g n m := by
  unfold Before at h ⊢
  omega

/-- A new static entry keeps the order. -/
private theorem before_withStatic (h : ConfInv g) (hl : g.map6List.Pairwise (Before g)) (s : MapStatic) :
    (withStatic g s).map6List.Pairwise (Before (withStatic g s)) := by
  have hnew : (withStatic g s).map6 (.static g.nStatics) = s.map6 := map6_half_self
  have hold : ∀ m ∈ g.map6List, (withStatic g s).map6 m = g.map6 m := fun m hm => map6_half_of_ne (h.lists.ne_new6 hm)
  have hnum : ∀ m ∈ g.map6List, m.number < g.nStatics := by
    intro m hm
    obtain ⟨i, rfl⟩ := h.static_of_rfc6052 hm
    exact h.lists.static_lt i (h.lists.pair64 i hm)
  have hl' : g.map6List.Pairwise (Before (withStatic g s)) := by
    refine hl.imp_of_mem fun {m n} hm hn hmn => ?_
    unfold Before
    rw [hold m hm, hold n hn]
    exact hmn
  refine pairwise_insertBefore hl' (fun m hm hp => ?_) (fun m hm hp => ?_) fun m hm n hn hp hmn => ?_
  · have hp : ¬((withStatic g s).map6 m).prefixLen < ((withStatic g s).map6 (.static g.nStatics)).prefixLen :=
      of_decide_eq_false hp
    have hn := hnum m hm
    have hself : (MapRef.static g.nStatics).number = g.nStatics := rfl
    unfold Before
    omega
  · exact Or.inl (of_decide_eq_true hp)
  · have hp : ((withStatic g s).map6 m).prefixLen < ((withStatic g s).map6 (.static g.nStatics)).prefixLen :=
      of_decide_eq_true hp
    unfold Before at hmn ⊢
    omega

/-- The file leaves the IPv6 list in order. -/
private theorem before_configRead {e : Endian} {now : Int} {content : List Char}
    (hc : configRead (configInit e now) libc content = .ok g) : g.map6List.Pairwise (Before g) := by
  refine (configRead_induct (P := fun g => ConfInv g ∧ g.map6List.Pairwise (Before g)) (fun g g' h hc =>
    ⟨h.1.change hc, ?_⟩) ⟨confInv_configInit e now, List.Pairwise.nil⟩ hc).2
  cases hc with
  | other hs =>
    unfold Before
    rw [hs.map6List, hs.map6]
    exact h.2
  | static _ _ hs =>
    obtain ⟨-, -, rfl⟩ := insertStatic_eq_ok h.1.lists hs
    exact before_withStatic h.1 h.2 _
  | pool hp =>
    unfold configDynamicPool at hp
    split at hp
    · cases hp
    split at hp
    · cases hp
    split at hp
    · cases hp
    split at hp
    · cases hp
    split at hp
    · cases hp
    obtain ⟨-, rfl⟩ := insertMap4_eq_ok.1 (orReject_eq_ok.1 hp)
    refine h.2.imp fun {m n} hmn => ?_
    cases m <;> cases n <;> exact hmn

/-- There is one prefix at most: each takes the whole IPv4 space. -/
private theorem ConfInv.prefix_unique (h : ConfInv g) {i j : Nat} (hi : .static i ∈ g.map6List)
    (hti : (g.statics i).map6.type = .rfc6052) (hj : .static j ∈ g.map6List)
    (htj : (g.statics j).map6.type = .rfc6052) : i = j := by
  have hspace : ∀ k, .static k ∈ g.map6List → (g.statics k).map6.type = .rfc6052 →
      (g.statics k).map4.prefixLen = 0 ∧ (g.statics k).map4.addr = 0 := by
    intro k hk ht
    have hok := h.lists.static_ok k (h.lists.pair64 k hk)
    rcases hok.kind with ⟨-, ht'⟩ | ⟨-, -, hl, -⟩
    · rw [ht] at ht'
      cases ht'
    · refine ⟨hl, ?_⟩
      have hn := hok.fits.wf4.normal
      rw [hl] at hn
      exact hn.symm.trans (by simp [BitPrefix.mask])
  have hsame : (g.map4 (.static i)).same (g.map4 (.static j)) = true := by
    obtain ⟨hli, hai⟩ := hspace i hi hti
    obtain ⟨hlj, haj⟩ := hspace j hj htj
    simp only [Map4.same, Gcfg.map4, hli, hai, hlj, haj, decide_true, Bool.and_self]
  have := h.lists.list4.distinct _ (h.lists.pair64 i hi) _ (h.lists.pair64 j hj) hsame
  exact MapRef.static.inj this

/-! ### The derived address -/

/-- The checks of `config_validate` that have nothing to do with the IPv6 address. -/
structure OtherChecks (g : Gcfg) (sd : Option (List Char)) : Prop where
  state : ∃ s, stateDirectory g sd = .ok s
  free4 : ∀ m ∈ g.map4List, (g.map4 m).same (selfEntry g 0).map4 = false
  tundev : g.tundev ≠ []
  memory : g.oom = false

/-- The configuration names no IPv6 address, entry `j` is its prefix, the IPv4 address can be appended to it, and the
other checks pass. -/
structure Derivable (g : Gcfg) (sd : Option (List Char)) (j : Nat) (a : In6) : Prop where
  absent : g.localAddr6 = 0
  listed : .static j ∈ g.map6List
  type : (g.statics j).map6.type = .rfc6052
  append : appendToPrefix g g.localAddr4 (g.statics j).map6.addr (g.statics j).map6.prefixLen = .ok a
  checks : OtherChecks g sd

/-- The own entry is derived from the prefix when the prefix is the last entry of the list. -/
private theorem insertSelf_derived (h : ConfInv g) (h0 : g.localAddr6 = 0) {j : Nat} (hj : .static j ∈ g.map6List)
    (ht : (g.statics j).map6.type = .rfc6052) {a : In6}
    (ha : appendToPrefix g g.localAddr4 (g.statics j).map6.addr (g.statics j).map6.prefixLen = .ok a)
    (hfree : ∀ m ∈ g.map4List, (g.map4 m).same (selfEntry g 0).map4 = false) (hoom : g.oom = false) :
    (∃ g', insertSelf g = .ok g' ∧ g'.localAddr6 = a) ↔ g.map6List.getLast? = some (.static j) := by
  have hw : isWkpf g.localAddr6 = false := by
    rw [h0]
    decide
  have h6 : word6 g.localAddr6 0 = 0 := by
    rw [h0]
    decide
  constructor
  · rintro ⟨g', hr, -⟩
    obtain ⟨-, -, hl⟩ := (insertSelf_eq_ok h).1 hr
    unfold linkSelf6 at hl
    simp only [hw, h6, Bool.false_eq_true, false_and, if_false, ne_eq, not_true_eq_false] at hl
    split at hl
    · cases hl
    rename_i r hlast
    obtain ⟨i, rfl⟩ := h.static_of_rfc6052 (List.mem_of_getLast? hlast)
    split at hl
    · cases hl
    rename_i hti
    rw [hlast, h.prefix_unique (List.mem_of_getLast? hlast) (not_not.1 hti) hj ht]
  · intro hlast
    refine ⟨{ half g (selfEntry g a) with localAddr6 := a }, (insertSelf_eq_ok h).2 ⟨hoom, hfree, ?_⟩, rfl⟩
    have hnot : ¬(g.map6 (.static j)).type ≠ .rfc6052 := not_not.2 ht
    have happ : appendToPrefix g g.localAddr4 (g.map6 (.static j)).addr (g.map6 (.static j)).prefixLen = .ok a := ha
    unfold linkSelf6
    simp only [hw, h6, Bool.false_eq_true, false_and, if_false, ne_eq, not_true_eq_false, hlast, happ]
    exact if_neg hnot

/-- **The own IPv6 address is derived from the prefix exactly when the prefix is the last map of the IPv6 list**: every
other map is longer, or as long and configured earlier. -/
theorem own_address_derived {e : Endian} {now : Int} {content : List Char} {sd : Option (List Char)}
    (hc : configRead (configInit e now) libc content = .ok g) {j : Nat} {a : In6} (hd : Derivable g sd j a) :
    (∃ g', configValidate g sd = .ok g' ∧ g'.localAddr6 = a) ↔
      ∀ i, .static i ∈ g.map6List → i ≠ j → (g.statics j).map6.prefixLen < (g.statics i).map6.prefixLen ∨
        (g.statics j).map6.prefixLen = (g.statics i).map6.prefixLen ∧ i < j := by
  have hconf := (confInv_configInit e now).configRead hc
  obtain ⟨h0, hj, ht, ha, hchecks⟩ := hd
  obtain ⟨s, hs⟩ := hchecks.state
  obtain ⟨hf, e4, e6, ew, ee, eo, et⟩ := settled_frame hs
  have happ : ∀ p len, appendToPrefix (settled s) (settled s).localAddr4 p len = appendToPrefix g g.localAddr4 p len :=
    fun p len => by simp only [appendToPrefix, e4, ew, ee]
  have hself := insertSelf_derived (hconf.stateDirectory hs).settled (e6.trans h0) (by rw [hf.map6List]; exact hj)
    (by rw [hf.statics]; exact ht) (by rw [happ, hf.statics]; exact ha) (by
      have hm4 : (selfEntry (settled s) 0).map4 = (selfEntry g 0).map4 := by simp only [selfEntry, e4]
      rw [hf.map4List, hf.map4, hm4]
      exact hchecks.free4) (eo.trans hchecks.memory)
  rw [hf.map6List, getLast?_eq_some_of_pairwise (fun _ _ h => h.asymm) (before_configRead hc) hj] at hself
  have h4 : g.localAddr4 ≠ 0 := by
    intro hz
    rw [hz] at ha
    cases ha
  constructor
  · rintro ⟨g', hv, rfl⟩
    obtain ⟨-, g₁, g₂, h1, -, h2, -, rfl⟩ := configValidate_iff.1 hv
    obtain rfl : g₁ = s := Except.ok.inj (h1.symm.trans hs)
    intro i hi hij
    exact hself.1 ⟨g₂, h2, (clamped_frame g₂).1.symm⟩ _ hi fun he => hij (MapRef.static.inj he)
  · intro hlast
    obtain ⟨g₂, h2, h6⟩ := hself.2 fun m hm hmj => by
      obtain ⟨i, rfl⟩ := hconf.static_of_rfc6052 hm
      exact hlast i hm fun he => hmj (by rw [he])
    refine ⟨clamped g₂, configValidate_iff.2 ⟨List.ne_nil_of_mem hj, s, g₂, hs, ?_, h2, ?_, rfl⟩,
      (clamped_frame g₂).1.trans h6⟩
    · rw [e4]
      exact h4
    · rw [(clamped_frame g₂).2, (insertSelf_spec (hconf.stateDirectory hs).settled h2).2.tundev, et]
      exact hchecks.tundev

/-! ### Sample configurations -/

/-- The configuration file of a translator with this IPv4 address and these further lines. -/
def ownFile (addr4 lines : String) : List Char :=
  "tun-device nat64\n".toList ++ ("ipv4-addr ".toList ++ addr4.toList) ++ ['\n'] ++ lines.toList

/-- The configuration as it is read. -/
def ownRead (addr4 lines : String) : Except Error Gcfg :=
  configRead (configInit .little 1000000) sampleLibc (ownFile addr4 lines)

theorem own_addresses_sample : ∃ g', ((ownRead "192.0.2.1" "prefix 2001:db8:1::/96\n").bind
    fun g => configValidate g none) = .ok g' ∧ OwnAddresses g' := by
  obtain ⟨g', hg, -⟩ := start_any (r := (ownRead "192.0.2.1" "prefix 2001:db8:1::/96\n").bind
    fun g => configValidate g none) (p := fun _ => True) (by decide +kernel)
  obtain ⟨g, hc, hv⟩ := bind_eq_ok.1 hg
  obtain ⟨s, hs, hw⟩ := start_any (r := ownRead "192.0.2.1" "prefix 2001:db8:1::/96\n")
    (p := fun g => g.wkpfStrict = true) (by decide +kernel)
  obtain rfl : g = s := Except.ok.inj (hc.symm.trans hs)
  exact ⟨g', hg, (own_addresses hc hv).2 (Or.inr (Or.inl hw))⟩

/-- With a link-local IPv4 address and `wkpf-strict` off the IPv6 address stays zero. -/
theorem not_ownAddresses_linkLocal : ∃ g', ((ownRead "169.254.0.0" "wkpf-strict no\nprefix 2001:db8:1::/96\n").bind
    fun g => configValidate g none) = .ok g' ∧ ¬OwnAddresses g' := by
  obtain ⟨g', hg, h0⟩ := start_any (r := (ownRead "169.254.0.0" "wkpf-strict no\nprefix 2001:db8:1::/96\n").bind
    fun g => configValidate g none) (p := fun g => g.localAddr6 = 0) (by decide +kernel)
  exact ⟨g', hg, fun h => h.set h0⟩

private theorem derivable_iff {g : Gcfg} {j : Nat} {a : In6} : Derivable g none j a ↔ g.localAddr6 = 0 ∧
    .static j ∈ g.map6List ∧ (g.statics j).map6.type = .rfc6052 ∧
    (appendToPrefix g g.localAddr4 (g.statics j).map6.addr (g.statics j).map6.prefixLen).toOption = some a ∧
    (∀ m ∈ g.map4List, (g.map4 m).same (selfEntry g 0).map4 = false) ∧ g.tundev ≠ [] ∧ g.oom = false := by
  constructor
  · intro h
    exact ⟨h.absent, h.listed, h.type, by rw [h.append]; rfl, h.checks.free4, h.checks.tundev, h.checks.memory⟩
  · rintro ⟨h1, h2, h3, h4, h5, h6, h7⟩
    refine ⟨h1, h2, h3, ?_, ⟨g, rfl⟩, h5, h6, h7⟩
    generalize appendToPrefix g g.localAddr4 (g.statics j).map6.addr (g.statics j).map6.prefixLen = r at h4
    cases r with
    | ok b => rw [Option.some.inj h4]
    | error err => cases h4

instance (g : Gcfg) (j : Nat) (a : In6) : Decidable (Derivable g none j a) := decidable_of_iff' _ derivable_iff

/-- A map of 29 bits in front of the prefix, and 64 in the IPv6 list behind it. -/
theorem not_derived_shorter : ∃ g, ownRead "192.0.2.1" "prefix 2001:db8:1::/96\nmap 198.18.0.0/29 2001:db8:2::/64\n" =
    .ok g ∧ Derivable g none 0 0x20010db80001000000000000c0000201 ∧ ¬∃ g', configValidate g none = .ok g' := by
  obtain ⟨g, hc, hd, hv⟩ := start_any (r := ownRead "192.0.2.1"
    "prefix 2001:db8:1::/96\nmap 198.18.0.0/29 2001:db8:2::/64\n")
    (p := fun g => Derivable g none 0 0x20010db80001000000000000c0000201 ∧ (configValidate g none).toOption.isNone)
    (by decide +kernel)
  refine ⟨g, hc, hd, fun ⟨g', hg⟩ => ?_⟩
  rw [hg] at hv
  cases hv

/-- Behind a longer map the prefix is found. -/
theorem own_address_derived_sample : ∃ g g', ownRead "192.0.2.1"
    "prefix 2001:db8:1::/96\nmap 198.18.0.4 2001:db8::99\n" = .ok g ∧ configValidate g none = .ok g' ∧
      g'.localAddr6 = 0x20010db80001000000000000c0000201 := by
  obtain ⟨g, hc, hd, hlast⟩ := start_any (r := ownRead "192.0.2.1"
    "prefix 2001:db8:1::/96\nmap 198.18.0.4 2001:db8::99\n")
    (p := fun g => Derivable g none 0 0x20010db80001000000000000c0000201 ∧
      g.map6List = [.static 1, .static 0] ∧ (g.statics 0).map6.prefixLen < (g.statics 1).map6.prefixLen)
    (by decide +kernel)
  obtain ⟨g', hv, h6⟩ := (own_address_derived hc hd).2 fun i hi hij => by
    rw [hlast.1] at hi
    simp only [List.mem_cons, MapRef.static.injEq, List.not_mem_nil, or_false] at hi
    obtain rfl := hi.resolve_right hij
    exact Or.inl hlast.2
  exact ⟨g, g', hc, hv, h6⟩

end Tayga
