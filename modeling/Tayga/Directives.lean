import Tayga.Entries

/-!
# The directives of the configuration file

What a directive that is accepted does to the mapper: it inserts a static entry into both lists, or it sets up the pool,
or it leaves the entries and the pool alone (`ConfChange`).  What these three keep, the whole file keeps
(`configRead_induct`).
-/

namespace Tayga

variable {g g' : Gcfg} {libc : Libc}

theorem bind_eq_ok {ε α β : Type} {x : Except ε α} {f : α → Except ε β} {b : β} :
    (x >>= f) = .ok b ↔ ∃ a, x = .ok a ∧ f a = .ok b := by
  cases x <;> simp [bind, Except.bind]

theorem orReject_eq_ok {ε α : Type} {x : Except ε α} {b : α} : orReject x = .ok b ↔ x = .ok b := by
  cases x <;> simp [orReject]

/-- The entries, the leases, the pool and the cache are the same. -/
structure SameConf (g g' : Gcfg) : Prop where
  statics : g'.statics = g.statics
  nStatics : g'.nStatics = g.nStatics
  hosts : g'.hosts = g.hosts
  nHosts : g'.nHosts = g.nHosts
  map4List : g'.map4List = g.map4List
  map6List : g'.map6List = g.map6List
  dynamicPool : g'.dynamicPool = g.dynamicPool
  cachePool : g'.cachePool = g.cachePool
  cacheActive : g'.cacheActive = g.cacheActive
  hashTable4 : g'.hashTable4 = g.hashTable4
  hashTable6 : g'.hashTable6 = g.hashTable6

theorem SameConf.refl (g : Gcfg) : SameConf g g := by constructor <;> rfl

/-- What a directive does when it is accepted. -/
inductive ConfChange (libc : Libc) (g g' : Gcfg) : Prop where
  | other (hs : SameConf g g') (h6 : g'.localAddr6 = g.localAddr6 ∨ validateIp6Addr g'.localAddr6 = none)
  | static {s : MapStatic} (hok : StaticOk s) (hv : s.map6.prefixLen ≠ 0 → validateIp6Addr s.map6.addr = none)
      (hs : insertStatic g s = .ok g')
  | pool {arg : List Char} (hp : configDynamicPool g libc arg = .ok g')

namespace ConfChange

/-- A directive that changes no entry, no pool and no address of the translator's own. -/
theorem keep (hs : SameConf g g') (h6 : g'.localAddr6 = g.localAddr6) : ConfChange libc g g' := .other hs (.inl h6)

theorem refl (g : Gcfg) : ConfChange libc g g := keep (.refl g) rfl

theorem configPrefix {ln : Nat} {arg : List Char}
    (hr : configPrefix g libc ln arg = .ok g') : ConfChange libc g g' := by
  unfold Tayga.configPrefix at hr
  split at hr
  · cases hr
  split at hr
  · cases hr
  rename_i addr len _ _ mask hm
  split at hr
  · cases hr
  rename_i hv
  split at hr
  · cases hr
  rename_i hlen
  split at hr
  · cases hr
  obtain ⟨h1, h2, h3⟩ := calcIp6Mask_eq_some.1 hm
  have hv' : validateIp6Addr addr = none := by simpa using hv
  have hlen' : len ∈ prefixLens := by
    simp only [prefixLens, List.mem_cons, List.not_mem_nil, or_false]
    omega
  refine .static ?_ ?_ hr
  · refine ⟨⟨⟨Nat.zero_le _, rfl, by simp [BitPrefix.Normal, allocMapStatic]⟩, ⟨h1, h2, h3⟩, ?_⟩, Or.inr
        ⟨rfl, rfl, rfl, hlen'⟩⟩
    simp only [MapStatic.bits, prefixLens, List.mem_cons, List.not_mem_nil, or_false] at hlen' ⊢
    omega
  · exact fun _ => hv'

theorem configMap {ln : Nat} {arg4 arg6 : List Char}
    (hr : configMap g libc ln arg4 arg6 = .ok g') : ConfChange libc g g' := by
  unfold Tayga.configMap at hr
  split at hr
  · cases hr
  split at hr
  · cases hr
  rename_i addr4 len4 _ mask4 hm4
  split at hr
  · cases hr
  split at hr
  · cases hr
  rename_i addr6 len6 _ mask6 hm6
  split at hr
  · cases hr
  rename_i hfit
  split at hr
  · cases hr
  split at hr
  · cases hr
  rename_i hv
  obtain ⟨h41, h42, h43⟩ := calcIp4Mask_eq_some.1 hm4
  obtain ⟨h61, h62, h63⟩ := calcIp6Mask_eq_some.1 hm6
  refine .static ?_ ?_ hr
  · refine ⟨⟨⟨h41, h42, h43⟩, ⟨h61, h62, h63⟩, ?_⟩, Or.inl ⟨rfl, rfl⟩⟩
    simp only [MapStatic.bits]
    omega
  · intro h0
    simp only [not_and, Bool.not_eq_true, Option.isSome_eq_false_iff, Option.isNone_iff_eq_none] at hv
    exact hv h0

theorem configIpv4Addr {arg : List Char}
    (hr : configIpv4Addr g libc arg = .ok g') : ConfChange libc g g' := by
  unfold Tayga.configIpv4Addr at hr
  split_ifs at hr
  split at hr
  · cases hr
  split_ifs at hr
  cases hr
  exact keep (by constructor <;> rfl) rfl

theorem configIpv6Addr {arg : List Char}
    (hr : configIpv6Addr g libc arg = .ok g') : ConfChange libc g g' := by
  unfold Tayga.configIpv6Addr at hr
  split_ifs at hr
  split at hr
  · cases hr
  split_ifs at hr with hv
  cases hr
  exact .other (by constructor <;> rfl) (.inr (by simpa using hv))

theorem configLog {args : List (List Char)} (hr : configLog g args = .ok g') :
    ConfChange libc g g' := by
  unfold Tayga.configLog at hr
  split_ifs at hr
  split at hr
  · cases hr
  · cases hr
    exact keep (by constructor <;> rfl) rfl

theorem configWkpfStrict {arg : List Char}
    (hr : configWkpfStrict g arg = .ok g') : ConfChange libc g g' := by
  unfold Tayga.configWkpfStrict at hr
  split at hr
  · cases hr
    exact keep (by constructor <;> rfl) rfl
  · cases hr

theorem configUdpCksumMode {arg : List Char}
    (hr : configUdpCksumMode g arg = .ok g') : ConfChange libc g g' := by
  unfold Tayga.configUdpCksumMode at hr
  split_ifs at hr <;> cases hr <;> exact keep (by constructor <;> rfl) rfl

theorem configTunUp {arg : List Char} (hr : configTunUp g arg = .ok g') :
    ConfChange libc g g' := by
  unfold Tayga.configTunUp at hr
  split at hr <;> cases hr
  exact refl _

theorem configTunIp {arg : List Char} (hr : configTunIp g libc arg = .ok g') :
    ConfChange libc g g' := by
  unfold Tayga.configTunIp at hr
  simp only [] at hr
  split_ifs at hr <;> cases hr <;> exact refl _

theorem configTunDevice {arg : List Char}
    (hr : configTunDevice g arg = .ok g') : ConfChange libc g g' := by
  unfold Tayga.configTunDevice at hr
  split_ifs at hr
  cases hr
  exact keep (by constructor <;> rfl) rfl

theorem configRuntimeDir {arg : List Char}
    (hr : configRuntimeDir g arg = .ok g') : ConfChange libc g g' := by
  unfold Tayga.configRuntimeDir at hr
  split_ifs at hr
  cases hr
  exact keep (by constructor <;> rfl) rfl

theorem configDataDir {arg : List Char} (hr : configDataDir g arg = .ok g') :
    ConfChange libc g g' := by
  unfold Tayga.configDataDir at hr
  split_ifs at hr
  cases hr
  exact keep (by constructor <;> rfl) rfl

theorem configMapFile {arg : List Char} (hr : configMapFile g arg = .ok g') :
    ConfChange libc g g' := by
  unfold Tayga.configMapFile at hr
  split_ifs at hr
  cases hr
  exact keep (by constructor <;> rfl) rfl

theorem configOfflinkMtu {arg : List Char}
    (hr : configOfflinkMtu g arg = .ok g') : ConfChange libc g g' := by
  unfold Tayga.configOfflinkMtu at hr
  simp only [] at hr
  split_ifs at hr
  cases hr
  exact keep (by constructor <;> rfl) rfl

theorem configWorkers {arg : List Char} (hr : configWorkers g arg = .ok g') :
    ConfChange libc g g' := by
  unfold Tayga.configWorkers at hr
  simp only [] at hr
  split_ifs at hr
  cases hr
  exact keep (by constructor <;> rfl) rfl

theorem configWord {words : List (List Char)} {arg : List Char}
    (hr : configWord g words arg = .ok g') : ConfChange libc g g' := by
  unfold Tayga.configWord at hr
  split_ifs at hr
  cases hr
  exact refl _

/-- One step down a chain of comparisons. -/
private theorem of_ite {c : Prop} [Decidable c] {x y r : Except Error Gcfg} {q : Prop} (hx : x = r → q)
    (hy : y = r → q) : (if c then x else y) = r → q := by
  split
  · exact hx
  · exact hy

theorem configDirective {ln : Nat} {name : List Char} {args : List (List Char)} :
    configDirective g libc ln name args = .ok g' → ConfChange libc g g' := by
  unfold Tayga.configDirective
  refine of_ite configLog (of_ite (fun hr => ?_) fun hr => ?_)
  · split at hr
    · exact configMap hr
    · cases hr
  · cases args with
    | nil => cases hr
    | cons a rest =>
      cases rest with
      | nil =>
        refine of_ite configIpv4Addr ?_ hr
        refine of_ite configIpv6Addr ?_
        refine of_ite configPrefix ?_
        refine of_ite configWkpfStrict ?_
        refine of_ite configUdpCksumMode ?_
        refine of_ite configTunUp ?_
        refine of_ite configTunIp ?_
        refine of_ite configTunIp ?_
        refine of_ite configTunDevice ?_
        refine of_ite .pool ?_
        refine of_ite configRuntimeDir ?_
        refine of_ite configDataDir ?_
        refine of_ite configMapFile ?_
        refine of_ite (fun he => Except.ok.inj he ▸ refl g) ?_
        refine of_ite configOfflinkMtu ?_
        refine of_ite configWorkers ?_
        refine of_ite configWord ?_
        refine of_ite configWord fun hr => ?_
        cases hr
      | cons b rest => cases hr

theorem configLine {ln : Nat} {line : List Char}
    (hr : configLine g libc ln line = .ok g') : ConfChange libc g g' := by
  unfold Tayga.configLine at hr
  split at hr
  · cases hr
  split at hr
  · cases hr
    exact refl _
  · split at hr
    · cases hr
    · exact configDirective hr

end ConfChange

/-- What every accepted directive keeps, the accepted file keeps. -/
theorem configRead_induct {P : Gcfg → Prop} (hstep : ∀ g g', P g → ConfChange libc g g' → P g') {content : List Char}
    (h : P g) (hr : configRead g libc content = .ok g') : P g' := by
  unfold configRead at hr
  generalize (fileLines content).zipIdx = lines at hr
  induction lines generalizing g with
  | nil =>
    cases hr
    exact h
  | cons l lines ih =>
    rw [List.foldlM_cons] at hr
    obtain ⟨g₁, h1, h2⟩ := bind_eq_ok.1 hr
    exact ih (hstep g g₁ h (.configLine h1)) h2

end Tayga
