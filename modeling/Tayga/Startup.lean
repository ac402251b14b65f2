import Tayga.Directives
import Tayga.Maint

/-!
# Startup

The mapper's part of `main`: the configuration file is read and validated, random numbers are drawn and the cache is
created.  Whatever configuration is accepted, the state it leads to keeps the invariant (`startup_inv`).
-/

namespace Tayga

open FreeRuns FirstMatch

variable {g : Gcfg} {libc : Libc}

/-! ### The start of the program -/

/-- Draw the random numbers; the multiplier of the IPv4 hash is odd. -/
def drawRand (g : Gcfg) (rand : Nat → BitVec 32) : Gcfg := { g with rand := Function.update rand 0 (rand 0 ||| 1) }

/-- `config_read`, `config_validate` and `create_cache`, as `main` calls them. -/
def startup (libc : Libc) (e : Endian) (now : Int) (content : List Char) (sd : Option (List Char))
    (rand : Nat → BitVec 32) : Except Error Gcfg := do
  let g ← configRead (configInit e now) libc content
  let g ← configValidate g sd
  if g.cacheSize ≠ 0 then createCache (drawRand g rand) else return g

/-! ### While the file is read -/

/-- There is no cache yet. -/
structure NoCache (g : Gcfg) : Prop where
  cachePool : g.cachePool = []
  cacheActive : g.cacheActive = []
  hashTable4 : g.hashTable4 = fun _ => []
  hashTable6 : g.hashTable6 = fun _ => []

/-- What the directives keep. -/
structure ConfInv (g : Gcfg) : Prop where
  lists : ListsInv g fun _ => False
  own6 : g.localAddr6 = 0 ∨ validateIp6Addr g.localAddr6 = none
  pool : ∀ p, g.dynamicPool = some p → PoolInv g p ∧ p.mappedList = [] ∧ p.dormantList = []
  noCache : NoCache g

theorem confInv_configInit (e : Endian) (now : Int) : ConfInv (configInit e now) where
  lists := {
    list4 := ListWf4.nil
    list6 := ListWf6.nil
    static_lt := by simp [configInit]
    static_ok := by simp [configInit]
    valid6 := by simp [configInit]
    pair64 := by simp [configInit]
    pair46 := by simp [configInit]
    pool4 := by simp [configInit]
    pool6 := by simp [configInit]
    host4 := by simp [configInit, Gcfg.mapped]
    host6 := by simp [configInit, Gcfg.mapped]
    host_ok := by simp [configInit, Gcfg.mapped, Gcfg.dormant] }
  own6 := Or.inl rfl
  pool p hp := by cases hp
  noCache := ⟨rfl, rfl, rfl, rfl⟩

namespace SameConf

variable {g' : Gcfg}

theorem map4 (h : SameConf g g') : g'.map4 = g.map4 := by
  funext m
  cases m <;> simp only [Gcfg.map4, h.statics, h.dynamicPool, h.hosts]

theorem map6 (h : SameConf g g') : g'.map6 = g.map6 := by
  funext m
  cases m <;> simp only [Gcfg.map6, h.statics, h.hosts]

theorem run (h : SameConf g g') : g'.run = g.run := by
  funext r
  cases r <;> simp only [Gcfg.run, Gcfg.freeAddr, h.dynamicPool, h.hosts]

theorem mapped (h : SameConf g g') : g'.mapped = g.mapped := by simp only [Gcfg.mapped, h.dynamicPool]

theorem dormant (h : SameConf g g') : g'.dormant = g.dormant := by simp only [Gcfg.dormant, h.dynamicPool]

theorem lists (h : SameConf g g') {exempt : Nat → Prop} (hl : ListsInv g exempt) : ListsInv g' exempt where
  list4 := by rw [h.map4List, h.map4]; exact hl.list4
  list6 := by rw [h.map6List, h.map6]; exact hl.list6
  static_lt := by rw [h.map4List, h.nStatics]; exact hl.static_lt
  static_ok := by rw [h.map4List, h.statics]; exact hl.static_ok
  valid6 := by rw [h.map6List, h.statics]; exact hl.valid6
  pair64 := by rw [h.map4List, h.map6List]; exact hl.pair64
  pair46 := by rw [h.map4List, h.map6List]; exact hl.pair46
  pool4 := by rw [h.map4List, h.dynamicPool]; exact hl.pool4
  pool6 := by rw [h.map6List]; exact hl.pool6
  host4 := by rw [h.map4List, h.mapped]; exact hl.host4
  host6 := by rw [h.map6List, h.mapped]; exact hl.host6
  host_ok := by rw [h.mapped, h.dormant, h.hosts]; exact hl.host_ok

theorem noCache (h : SameConf g g') (hc : NoCache g) : NoCache g' :=
  ⟨h.cachePool.trans hc.cachePool, h.cacheActive.trans hc.cacheActive, h.hashTable4.trans hc.hashTable4,
    h.hashTable6.trans hc.hashTable6⟩

end SameConf

/-- A pool without leases depends on its runs only. -/
private theorem PoolInv.of_run {p : DynamicPool} (hp : PoolInv g p) (hm : p.mappedList = []) (hd : p.dormantList = [])
    {g' : Gcfg} (hr : g'.run = g.run) : PoolInv g' p where
  toRunsInv := ⟨hp.stop_le, by rw [hr]; exact hp.chain, hp.head, hp.nodup, hp.hosts, hp.nodup_leases,
    by simp [hm, hd], by simp [hm, hd]⟩
  v6_inj := by simp [hm, hd]
  not_own := by simp [hm, hd]

theorem ConfInv.congr (h : ConfInv g) {g' : Gcfg} (hs : SameConf g g')
    (h6 : g'.localAddr6 = 0 ∨ validateIp6Addr g'.localAddr6 = none) : ConfInv g' where
  lists := hs.lists h.lists
  own6 := h6
  pool p hpp := by
    rw [hs.dynamicPool] at hpp
    obtain ⟨h1, h2, h3⟩ := h.pool p hpp
    exact ⟨h1.of_run h2 h3 hs.run, h2, h3⟩
  noCache := hs.noCache h.noCache

/-! ### Inserting entries -/

/-- An entry that is inserted into both lists conflicts with none, and is linked. -/
theorem insertStatic_eq_ok {exempt : Nat → Prop} (h : ListsInv g exempt) {s : MapStatic} {g' : Gcfg}
    (hs : insertStatic g s = .ok g') : (∀ m ∈ g.map4List, (g.map4 m).same s.map4 = false) ∧
    (∀ m ∈ g.map6List, (g.map6 m).clash s.map6 = false) ∧ g' = withStatic g s := by
  have hs' : (orReject (insertMap4 (newStatic g s).2 (.static g.nStatics)) >>= fun g' =>
      orReject (insertMap6 g' (.static g.nStatics))) = .ok g' := by
    unfold insertStatic at hs
    cases hoom : g.oom with
    | true =>
      rw [hoom] at hs
      cases hs
    | false =>
      rw [hoom] at hs
      exact hs
  obtain ⟨g1, h1, h2⟩ := bind_eq_ok.1 hs'
  obtain ⟨h4, rfl⟩ := insertMap4_eq_ok.1 (orReject_eq_ok.1 h1)
  obtain ⟨h6, rfl⟩ := insertMap6_eq_ok.1 (orReject_eq_ok.1 h2)
  refine ⟨fun m hm => ?_, fun m hm => ?_, rfl⟩
  · have e1 : (newStatic g s).2.map4 m = g.map4 m := map4_half_of_ne (h.ne_new4 hm)
    have e2 : (newStatic g s).2.map4 (.static g.nStatics) = s.map4 := map4_half_self
    rw [← e1, ← e2]
    exact h4 m hm
  · rw [← map6_half_of_ne (s := s) (h.ne_new6 hm), ← map6_half_self (g := g) (s := s)]
    exact h6 m hm

theorem ConfInv.relist (h : ConfInv g) {l4 l6 : List MapRef} {statics : Nat → MapStatic} {n : Nat}
    (hl : ListsInv (relist g l4 l6 statics n) fun _ => False) : ConfInv (relist g l4 l6 statics n) where
  lists := hl
  own6 := h.own6
  pool p hp := by
    obtain ⟨h1, h2, h3⟩ := h.pool p hp
    exact ⟨h1.relist, h2, h3⟩
  noCache := ⟨h.noCache.cachePool, h.noCache.cacheActive, h.noCache.hashTable4, h.noCache.hashTable6⟩

theorem ConfInv.withStatic (h : ConfInv g) {s : MapStatic} (hs : CanLink g s) : ConfInv (withStatic g s) := by
  have hl := h.lists.withStatic hs fun _ _ hf => hf
  rw [withStatic_eq_relist] at hl ⊢
  exact h.relist hl

theorem ConfInv.insertStatic (h : ConfInv g) {s : MapStatic} (hok : StaticOk s)
    (hv : s.map6.prefixLen ≠ 0 → validateIp6Addr s.map6.addr = none) {g' : Gcfg} (hs : insertStatic g s = .ok g') :
    ConfInv g' := by
  obtain ⟨h4, h6, rfl⟩ := insertStatic_eq_ok h.lists hs
  exact h.withStatic ⟨hok, hv, h4, h6⟩

/-! ### The pool -/

/-- The addresses of a pool end within the address space. -/
private theorem stop_le_of_normal {addr : In4} {len : Nat} (hl : len ≤ 32) (hn : BitPrefix.Normal addr len) :
    addr.toNat + (0xffffffff >>> len : BitVec 32).toNat + 1 ≤ 2 ^ 32 ∧
    (0xffffffff >>> len : BitVec 32).toNat + 1 = 2 ^ (32 - len) := by
  have key : ∀ l : Fin 33, (0xffffffff >>> (l : Nat) : BitVec 32) = ~~~BitPrefix.mask 32 l ∧
      (0xffffffff >>> (l : Nat) : BitVec 32).toNat + 1 = 2 ^ (32 - (l : Nat)) := by decide
  obtain ⟨h1, h2⟩ := key ⟨len, by omega⟩
  simp only at h1 h2
  refine ⟨?_, h2⟩
  have hand : addr &&& (0xffffffff >>> len : BitVec 32) = 0#32 := by
    rw [h1]
    have : addr = addr &&& BitPrefix.mask 32 len := hn.symm
    rw [this, BitVec.and_assoc, BitVec.and_not_self]
    exact BitVec.and_zero
  have := BitVec.toNat_add_of_and_eq_zero hand
  have := (addr + (0xffffffff >>> len : BitVec 32)).isLt
  omega

/-- A pool without leases is one run of free addresses. -/
private theorem poolInv_new {addr mask : In4} {len : Nat} (hl : len ≤ 32) (hn : BitPrefix.Normal addr len)
    (hp : g.dynamicPool = some ⟨⟨addr, mask, len, .dynamicPool⟩, [], [], [.head],
      ⟨addr.toNat, (0xffffffff >>> len : BitVec 32).toNat⟩⟩) :
    PoolInv g ⟨⟨addr, mask, len, .dynamicPool⟩, [], [], [.head],
      ⟨addr.toNat, (0xffffffff >>> len : BitVec 32).toNat⟩⟩ := by
  obtain ⟨h1, h2⟩ := stop_le_of_normal hl hn
  refine ⟨⟨?_, ?_, rfl, by simp, by simp, by simp, by simp, by simp⟩, by simp, by simp⟩
  · simp only
    omega
  · refine ⟨?_, ?_⟩ <;> simp only [Gcfg.run, Gcfg.freeAddr, hp]
    change _ = _
    omega

theorem ConfInv.configDynamicPool (h : ConfInv g) {arg : List Char} {g' : Gcfg}
    (hr : configDynamicPool g libc arg = .ok g') : ConfInv g' := by
  unfold Tayga.configDynamicPool at hr
  split at hr
  · cases hr
  rename_i hno
  split at hr
  · cases hr
  split at hr
  · cases hr
  rename_i addr len _ _ mask hm
  split at hr
  · cases hr
  split at hr
  · cases hr
  rename_i hlen
  obtain ⟨h1, h2, h3⟩ := calcIp4Mask_eq_some.1 hm
  have hnone : g.dynamicPool = none := by
    simp only [not_or, Bool.not_eq_true, Option.isSome_eq_false_iff, Option.isNone_iff_eq_none] at hno
    exact hno.1
  have hmapped : g.mapped = [] := by rw [Gcfg.mapped, hnone]
  have hdormant : g.dormant = [] := by rw [Gcfg.dormant, hnone]
  have hnot : MapRef.pool ∉ g.map4List := by
    rw [h.lists.pool4, hnone]
    simp
  obtain ⟨hfree, rfl⟩ := insertMap4_eq_ok.1 (orReject_eq_ok.1 hr)
  generalize hpool : (⟨⟨addr, mask, len, .dynamicPool⟩, [], [], [.head],
    ⟨addr.toNat, (0xffffffff >>> len : BitVec 32).toNat⟩⟩ : DynamicPool) = pool at hfree ⊢
  have hwf : pool.map4.Wf := by
    rw [← hpool]
    exact ⟨h1, h2, h3⟩
  have hml : pool.mappedList = [] ∧ pool.dormantList = [] := by
    rw [← hpool]
    exact ⟨rfl, rfl⟩
  have hpi : ∀ g₁ : Gcfg, g₁.dynamicPool = some pool → PoolInv g₁ pool := by
    intro g₁ hg₁
    rw [← hpool] at hg₁ ⊢
    exact poolInv_new h1 h3 hg₁
  -- the entries in the list keep their halves
  have hmap : ∀ m ∈ g.map4List, Gcfg.map4 { g with dynamicPool := some pool } m = g.map4 m := by
    intro m hmem
    cases m with
    | static i => rfl
    | pool => exact absurd hmem hnot
    | host d => rfl
  refine ⟨?_, h.own6, ?_, ⟨h.noCache.cachePool, h.noCache.cacheActive, h.noCache.hashTable4, h.noCache.hashTable6⟩⟩
  · have hmem : ∀ m, m ∈ (link4 { g with dynamicPool := some pool } .pool).map4List ↔ m = .pool ∨ m ∈ g.map4List :=
      fun m => mem_insertBefore
    refine {
      list4 := (h.lists.list4.congr hmap).insert hnot hwf hfree
      list6 := h.lists.list6.congr fun m hm6 => ?_
      static_lt := fun i hi => h.lists.static_lt i (((hmem _).1 hi).resolve_left (by simp))
      static_ok := fun i hi => h.lists.static_ok i (((hmem _).1 hi).resolve_left (by simp))
      valid6 := h.lists.valid6
      pair64 := fun i hi => (hmem _).2 (Or.inr (h.lists.pair64 i hi))
      pair46 := fun i hi => h.lists.pair46 i (((hmem _).1 hi).resolve_left (by simp))
      pool4 := ?_
      pool6 := h.lists.pool6
      host4 := fun d => ?_
      host6 := fun d => ?_
      host_ok := fun d hd => ?_ }
    · cases m <;> rfl
    · rw [hmem]
      exact iff_of_true (Or.inl rfl) rfl
    · rw [hmem, or_iff_right (by simp)]
      intro hd
      have := h.lists.host4 d hd
      rw [hmapped] at this
      cases this
    · intro hd
      have := h.lists.host6 d hd
      rw [hmapped] at this
      cases this
    · change d ∈ pool.mappedList ∨ d ∈ pool.dormantList at hd
      rw [hml.1, hml.2] at hd
      simp at hd
  · intro p hp
    have hpp : (link4 { g with dynamicPool := some pool } .pool).dynamicPool = some pool := rfl
    rw [hpp] at hp
    cases hp
    exact ⟨hpi _ rfl, hml⟩

/-! ### The directives -/

/-- A directive that changes no entry, no pool and no address of the translator's own. -/
theorem ConfInv.other (h : ConfInv g) {g' : Gcfg} (hs : SameConf g g') (h6 : g'.localAddr6 = g.localAddr6) :
    ConfInv g' :=
  h.congr hs (by rw [h6]; exact h.own6)

theorem ConfInv.change (h : ConfInv g) {g' : Gcfg} (hc : ConfChange libc g g') : ConfInv g' := by
  cases hc with
  | other hs h6 =>
    refine h.congr hs ?_
    rcases h6 with h6 | h6
    · rw [h6]
      exact h.own6
    · exact Or.inr h6
  | static hok hv hs => exact h.insertStatic hok hv hs
  | pool hp => exact h.configDynamicPool hp

theorem ConfInv.configRead (h : ConfInv g) {content : List Char} {g' : Gcfg}
    (hr : configRead g libc content = .ok g') : ConfInv g' :=
  configRead_induct (fun _ _ h hc => h.change hc) h hr

/-! ### Validation -/

theorem stateDirectory_eq_ok {sd : Option (List Char)} {g' : Gcfg} (hr : stateDirectory g sd = .ok g') :
    ∃ d, g' = { g with dataDir := d } := by
  unfold stateDirectory at hr
  split at hr
  · cases hr
    exact ⟨_, rfl⟩
  · split_ifs at hr <;> cases hr <;> exact ⟨_, rfl⟩

theorem ConfInv.stateDirectory (h : ConfInv g) {sd : Option (List Char)} {g' : Gcfg}
    (hr : stateDirectory g sd = .ok g') : ConfInv g' := by
  obtain ⟨d, rfl⟩ := stateDirectory_eq_ok hr
  exact h.other (by constructor <;> rfl) rfl

/-- What the lists and the pool are like after validation. -/
structure Validated (g : Gcfg) : Prop where
  maps : MapsInv g
  pool : ∀ p, g.dynamicPool = some p → PoolInv g p ∧ p.mappedList = [] ∧ p.dormantList = []
  noCache : NoCache g

/-- The own entry before its IPv6 address is known. -/
def selfEntry (g : Gcfg) (addr6 : In6) : MapStatic where
  map4 := ⟨g.localAddr4, ip4Mask 32, 32, .static⟩
  map6 := ⟨addr6, ip6Mask 128, 128, .static⟩
  lineNo := 0
  origin := .self

private theorem staticOk_selfEntry (g : Gcfg) (addr6 : In6) : StaticOk (selfEntry g addr6) where
  fits := ⟨⟨by simp [selfEntry], rfl, BitPrefix.normal_full _⟩, ⟨by simp [selfEntry], rfl, BitPrefix.normal_full _⟩,
    by simp [selfEntry, MapStatic.bits]⟩
  kind := Or.inl ⟨rfl, rfl⟩

private theorem setStatic_half (s s' : MapStatic) (h : s'.map4 = s.map4) :
    (half g s).setStatic g.nStatics s' = half g s' := by
  have h4 : (newStatic g s).2.map4 = (newStatic g s').2.map4 := by
    funext m
    cases m with
    | static i =>
      by_cases hi : i = g.nStatics
      · subst hi
        simp [Gcfg.map4, newStatic, Gcfg.setStatic, h]
      · simp [Gcfg.map4, newStatic, Gcfg.setStatic, Function.update_of_ne hi]
    | pool => rfl
    | host d => rfl
  have hu : Function.update (Function.update g.statics g.nStatics s) g.nStatics s' =
      Function.update g.statics g.nStatics s' := Function.update_idem _ _ _
  unfold half link4
  rw [h4]
  exact congrArg (fun st => ({ g with
    statics := st
    nStatics := g.nStatics + 1
    map4List := insertBefore (fun r => ((newStatic g s').2.map4 r).prefixLen <
      ((newStatic g s').2.map4 (.static g.nStatics)).prefixLen) (.static g.nStatics) g.map4List } : Gcfg)) hu

/-- How the own entry gets its IPv6 address: it is configured, or derived from the last prefix of the list, or the
derivation failed and that is tolerated. -/
inductive SelfInserted (g : Gcfg) : Gcfg → Prop
  | configured (h6 : word6 g.localAddr6 0 ≠ 0)
      (hfree : ∀ m ∈ g.map6List, (g.map6 m).clash (selfEntry g g.localAddr6).map6 = false) :
      SelfInserted g (withStatic g (selfEntry g g.localAddr6))
  | derived {r : MapRef} {a : In6} (hr : r ∈ g.map6List) (ht : (g.map6 r).type = .rfc6052)
      (ha : appendToPrefix g g.localAddr4 (g.map6 r).addr (g.map6 r).prefixLen = .ok a) :
      SelfInserted g { half g (selfEntry g a) with localAddr6 := a }
  | tolerated {r : MapRef} (hr : r ∈ g.map6List) (ht : (g.map6 r).type = .rfc6052) (h6 : word6 g.localAddr6 0 = 0) :
      SelfInserted g (half g (selfEntry g g.localAddr6))

/-- What `config_validate` does in the state `s` once the IPv4 half of the own entry is linked. -/
def insertSelf6 (g s : Gcfg) : Except Error Gcfg :=
  if isWkpf s.localAddr6 ∧ s.wkpfStrict then .error .reject
  else if word6 s.localAddr6 0 ≠ 0 then
    orReject (insertMap6 (s.setStatic (s.nStatics - 1) (selfEntry g s.localAddr6)) (.static g.nStatics))
  else match s.map6List.getLast? with
    | none => .error .reject
    | some r =>
      if (s.map6 r).type ≠ .rfc6052 then .error .reject
      else match appendToPrefix s s.localAddr4 (s.map6 r).addr (s.map6 r).prefixLen with
        | .ok a => .ok { s.setStatic (s.nStatics - 1) (selfEntry g a) with localAddr6 := a }
        | .error _ =>
          if s.wkpfStrict then .error .reject
          else .ok (s.setStatic (s.nStatics - 1) (selfEntry g s.localAddr6))

/-- The same from the state before. -/
def linkSelf6 (g : Gcfg) : Except Error Gcfg :=
  if isWkpf g.localAddr6 ∧ g.wkpfStrict then .error .reject
  else if word6 g.localAddr6 0 ≠ 0 then orReject (insertMap6 (half g (selfEntry g g.localAddr6)) (.static g.nStatics))
  else match g.map6List.getLast? with
    | none => .error .reject
    | some r =>
      if (g.map6 r).type ≠ .rfc6052 then .error .reject
      else match appendToPrefix g g.localAddr4 (g.map6 r).addr (g.map6 r).prefixLen with
        | .ok a => .ok { half g (selfEntry g a) with localAddr6 := a }
        | .error _ => if g.wkpfStrict then .error .reject else .ok (half g (selfEntry g g.localAddr6))

private theorem insertSelf6_half (h : ConfInv g) : insertSelf6 g (half g (selfEntry g 0)) = linkSelf6 g := by
  have hn : (half g (selfEntry g 0)).nStatics - 1 = g.nStatics := rfl
  have h6 : (half g (selfEntry g 0)).localAddr6 = g.localAddr6 := rfl
  have h4 : (half g (selfEntry g 0)).localAddr4 = g.localAddr4 := rfl
  have hl : (half g (selfEntry g 0)).map6List = g.map6List := rfl
  have hw : (half g (selfEntry g 0)).wkpfStrict = g.wkpfStrict := rfl
  have ha : ∀ a p len, appendToPrefix (half g (selfEntry g 0)) a p len = appendToPrefix g a p len := fun _ _ _ => rfl
  have hs : ∀ a, (half g (selfEntry g 0)).setStatic g.nStatics (selfEntry g a) = half g (selfEntry g a) :=
    fun a => setStatic_half _ _ rfl
  unfold insertSelf6 linkSelf6
  simp only [hn, h6, h4, hl, hw, ha, hs]
  cases hlast : g.map6List.getLast? with
  | none => rfl
  | some r =>
    have hr := map6_half_of_ne (s := selfEntry g 0) (h.lists.ne_new6 (List.mem_of_getLast? hlast))
    simp only [hr]

/-- The own entry is inserted when there is memory for it, no other entry has its IPv4 address, and its IPv6 address is
found. -/
theorem insertSelf_eq_ok (h : ConfInv g) {g' : Gcfg} : insertSelf g = .ok g' ↔ g.oom = false ∧
    (∀ m ∈ g.map4List, (g.map4 m).same (selfEntry g 0).map4 = false) ∧ linkSelf6 g = .ok g' := by
  have hbind : g.oom = false → insertSelf g =
      orReject (insertMap4 (newStatic g (selfEntry g 0)).2 (.static g.nStatics)) >>= insertSelf6 g := by
    intro hoom
    unfold insertSelf
    rw [hoom]
    rfl
  have hfree : (∀ m ∈ (newStatic g (selfEntry g 0)).2.map4List, ((newStatic g (selfEntry g 0)).2.map4 m).same
      ((newStatic g (selfEntry g 0)).2.map4 (.static g.nStatics)) = false) ↔
      ∀ m ∈ g.map4List, (g.map4 m).same (selfEntry g 0).map4 = false := by
    refine forall₂_congr fun m hm => ?_
    have e1 : (newStatic g (selfEntry g 0)).2.map4 m = g.map4 m := map4_half_of_ne (h.lists.ne_new4 hm)
    have e2 : (newStatic g (selfEntry g 0)).2.map4 (.static g.nStatics) = (selfEntry g 0).map4 := map4_half_self
    rw [e1, e2]
  constructor
  · intro hr
    cases hoom : g.oom with
    | true =>
      unfold insertSelf at hr
      rw [hoom] at hr
      cases hr
    | false =>
      rw [hbind hoom] at hr
      obtain ⟨g₁, h1, h2⟩ := bind_eq_ok.1 hr
      obtain ⟨h4, rfl⟩ := insertMap4_eq_ok.1 (orReject_eq_ok.1 h1)
      exact ⟨rfl, hfree.1 h4, (insertSelf6_half h).symm.trans h2⟩
  · rintro ⟨hoom, h4, hl⟩
    rw [hbind hoom]
    exact bind_eq_ok.2 ⟨_, orReject_eq_ok.2 (insertMap4_eq_ok.2 ⟨hfree.2 h4, rfl⟩), (insertSelf6_half h).trans hl⟩

theorem insertSelf_spec (h : ConfInv g) {g' : Gcfg} (hr : insertSelf g = .ok g') :
    (∀ m ∈ g.map4List, (g.map4 m).same (selfEntry g 0).map4 = false) ∧ SelfInserted g g' := by
  obtain ⟨-, h4, hl⟩ := (insertSelf_eq_ok h).1 hr
  refine ⟨h4, ?_⟩
  unfold linkSelf6 at hl
  split at hl
  · cases hl
  split at hl
  · rename_i h6
    obtain ⟨hfree, rfl⟩ := insertMap6_eq_ok.1 (orReject_eq_ok.1 hl)
    refine .configured h6 fun m hm => ?_
    rw [← map6_half_of_ne (s := selfEntry g g.localAddr6) (h.lists.ne_new6 hm),
      ← map6_half_self (g := g) (s := selfEntry g g.localAddr6)]
    exact hfree m hm
  · rename_i h6
    split at hl
    · cases hl
    rename_i r hlast
    have hmem : r ∈ g.map6List := List.mem_of_getLast? hlast
    split at hl
    · cases hl
    rename_i ht
    split at hl
    · rename_i a ha
      cases hl
      exact .derived hmem (not_not.1 ht) ha
    · split at hl
      · cases hl
      · cases hl
        exact .tolerated hmem (not_not.1 ht) (not_not.1 h6)

/-- An address that passes the check does not start with a zero word. -/
theorem word6_ne_zero {x : In6} (h : validateIp6Addr x = none) : word6 x 0 ≠ 0 := by
  intro h0
  have : validateIp6Addr x = validateIp6Addr 0 := validateIp6Addr_congr (by rw [h0]; decide)
  rw [this, validateIp6Addr_zero] at h
  cases h

theorem ConfInv.mapped (h : ConfInv g) : g.mapped = [] := by
  unfold Gcfg.mapped
  cases hp : g.dynamicPool with
  | none => rfl
  | some p => exact (h.pool p hp).2.1

/-- Only a static entry of the list is an RFC 6052 prefix. -/
theorem ConfInv.static_of_rfc6052 (h : ConfInv g) {r : MapRef} (hr : r ∈ g.map6List) : ∃ j, r = .static j := by
  cases r with
  | static j => exact ⟨j, rfl⟩
  | pool => exact absurd hr h.lists.pool6
  | host d =>
    exfalso
    have hd := h.lists.host6 d hr
    rw [h.mapped] at hd
    cases hd

/-- With the own entry inserted the tables are as they should be. -/
theorem SelfInserted.tablesInv (h : ConfInv g) (h4 : ∀ m ∈ g.map4List, (g.map4 m).same (selfEntry g 0).map4 = false)
    {g' : Gcfg} (hs : SelfInserted g g') : TablesInv g' := by
  cases hs with
  | configured h6 hfree =>
    have hv : validateIp6Addr g.localAddr6 = none := h.own6.resolve_left fun h0 => h6 (by rw [h0]; decide)
    have hl : ListsInv (withStatic g (selfEntry g g.localAddr6)) (IsOwn (withStatic g (selfEntry g g.localAddr6))) :=
      h.lists.withStatic ⟨staticOk_selfEntry g _, fun _ => hv, h4, hfree⟩ fun _ _ hf => hf.elim
    have hst : (withStatic g (selfEntry g g.localAddr6)).statics g.nStatics = selfEntry g g.localAddr6 :=
      statics_half_self
    exact { hl with own := ⟨g.nStatics, mem4_withStatic.2 (Or.inl rfl), ⟨by rw [hst]; rfl, by rw [hst]; rfl,
      by rw [hst]; rfl⟩, Or.inl (mem6_withStatic.2 (Or.inl rfl))⟩ }
  | @derived r a hr ht ha =>
    obtain ⟨j, rfl⟩ := h.static_of_rfc6052 hr
    have hne := h.lists.ne_new (h.lists.pair64 j hr)
    have hst : (half g (selfEntry g a)).statics g.nStatics = selfEntry g a := statics_half_self
    have hstj : (half g (selfEntry g a)).statics j = g.statics j := statics_half_of_ne hne
    have hown : IsOwn { half g (selfEntry g a) with localAddr6 := a } g.nStatics :=
      ⟨by rw [hst]; rfl, by rw [hst]; rfl, by rw [hst]; rfl⟩
    have hl : ListsInv (half g (selfEntry g a)) (IsOwn { half g (selfEntry g a) with localAddr6 := a }) :=
      h.lists.half (staticOk_selfEntry g a) h4 (fun _ _ hf => hf.elim) hown
    have hsc : SameConf (half g (selfEntry g a)) { half g (selfEntry g a) with localAddr6 := a } := by
      constructor <;> rfl
    refine { hsc.lists hl with own := ⟨g.nStatics, mem4_half.2 (Or.inl rfl), hown, Or.inr ⟨j, hr, ?_, Or.inr ?_⟩⟩ }
    · rw [hstj]
      exact ht
    · rw [hstj]
      exact ha
  | @tolerated r hr ht h6 =>
    obtain ⟨j, rfl⟩ := h.static_of_rfc6052 hr
    have hne := h.lists.ne_new (h.lists.pair64 j hr)
    have hst : (half g (selfEntry g g.localAddr6)).statics g.nStatics = selfEntry g g.localAddr6 := statics_half_self
    have hstj : (half g (selfEntry g g.localAddr6)).statics j = g.statics j := statics_half_of_ne hne
    have hown : IsOwn (half g (selfEntry g g.localAddr6)) g.nStatics :=
      ⟨by rw [hst]; rfl, by rw [hst]; rfl, by rw [hst]; rfl⟩
    have hl : ListsInv (half g (selfEntry g g.localAddr6)) (IsOwn (half g (selfEntry g g.localAddr6))) :=
      h.lists.half (staticOk_selfEntry g g.localAddr6) h4 (fun _ _ hf => hf.elim) hown
    refine { hl with own := ⟨g.nStatics, mem4_half.2 (Or.inl rfl), hown, Or.inr ⟨j, hr, ?_, Or.inl ?_⟩⟩ }
    · rw [hstj]
      exact ht
    · exact h.own6.resolve_right fun hv => word6_ne_zero hv h6

/-- Inserting the own entry touches neither the leases nor the cache. -/
theorem SelfInserted.frame {g' : Gcfg} (hs : SelfInserted g g') : g'.dynamicPool = g.dynamicPool ∧
    g'.hosts = g.hosts ∧ g'.cachePool = g.cachePool ∧ g'.cacheActive = g.cacheActive ∧
    g'.hashTable4 = g.hashTable4 ∧ g'.hashTable6 = g.hashTable6 := by
  cases hs <;> exact ⟨rfl, rfl, rfl, rfl, rfl, rfl⟩

theorem TablesInv.of_no_lease (h : TablesInv g) (hm : g.mapped = []) : MapsInv g where
  toTablesInv := h
  listed4 := by simp [hm]
  listed6 := by simp [hm]

theorem ConfInv.insertSelf (h : ConfInv g) {g' : Gcfg} (hr : insertSelf g = .ok g') : Validated g' := by
  obtain ⟨h4, hs⟩ := insertSelf_spec h hr
  obtain ⟨hp, hh, hcp, hca, ht4, ht6⟩ := hs.frame
  refine ⟨(hs.tablesInv h h4).of_no_lease (by rw [Gcfg.mapped, hp]; exact h.mapped), ?_, hcp.trans
      h.noCache.cachePool, hca.trans h.noCache.cacheActive,
    ht4.trans h.noCache.hashTable4, ht6.trans h.noCache.hashTable6⟩
  intro p hpp
  rw [hp] at hpp
  obtain ⟨h1, h2, h3⟩ := h.pool p hpp
  refine ⟨h1.of_run h2 h3 ?_, h2, h3⟩
  funext r
  cases r <;> simp only [Gcfg.run, Gcfg.freeAddr, hp, hh]

private theorem MapsInv.of_sameConf (h : MapsInv g) {g' : Gcfg} (hs : SameConf g g') (he : g'.endian = g.endian)
    (h4 : g'.localAddr4 = g.localAddr4) (h6 : g'.localAddr6 = g.localAddr6) (hw : g'.wkpfStrict = g.wkpfStrict) :
    MapsInv g' := by
  have hown : ∀ i, IsOwn g i → IsOwn g' i := fun i ho => ⟨by rw [hs.statics, h4]; exact ho.map4,
    by rw [hs.statics, h6]; exact ho.map6, by rw [hs.statics]; exact ho.origin⟩
  obtain ⟨i, hi, ho, hd⟩ := h.own
  have hl := hs.lists h.toListsInv
  refine { hl with
    pair46 := fun i hi => (hl.pair46 i hi).imp_right (hown i)
    own := ⟨i, by rw [hs.map4List]; exact hi, hown i ho, ?_⟩
    listed4 := by rw [hs.map4List, hs.mapped]; exact h.listed4
    listed6 := by rw [hs.map6List, hs.mapped]; exact h.listed6 }
  simp only [DerivedOwn, hs.map6List, hs.statics, h4, h6, appendToPrefix, he, hw]
  exact hd

theorem Validated.congr (h : Validated g) {g' : Gcfg} (hs : SameConf g g') (he : g'.endian = g.endian)
    (h4 : g'.localAddr4 = g.localAddr4) (h6 : g'.localAddr6 = g.localAddr6) (hw : g'.wkpfStrict = g.wkpfStrict) :
    Validated g' where
  maps := h.maps.of_sameConf hs he h4 h6 hw
  pool p hpp := by
    rw [hs.dynamicPool] at hpp
    obtain ⟨h1, h2, h3⟩ := h.pool p hpp
    exact ⟨h1.of_run h2 h3 hs.run, h2, h3⟩
  noCache := hs.noCache h.noCache

/-- Whether the maps can change is known before the own entry is inserted; if not there is no cache. -/
def settled (g : Gcfg) : Gcfg :=
  let g := { g with mapsImmutable := g.dynamicPool.isNone ∧ g.mapFile = [] }
  if g.mapsImmutable then { g with cacheSize := 0 } else g

theorem settled_eq (g : Gcfg) : ∃ b n, settled g = { g with mapsImmutable := b, cacheSize := n } := by
  unfold settled
  dsimp only
  split
  · exact ⟨_, _, rfl⟩
  · exact ⟨_, _, rfl⟩

/-- The off-link MTU is at least the smallest IPv6 MTU. -/
def clamped (g : Gcfg) : Gcfg := if g.ipv6OfflinkMtu ≤ mtuMin then { g with ipv6OfflinkMtu := mtuMin } else g

theorem clamped_eq (g : Gcfg) : ∃ n, clamped g = { g with ipv6OfflinkMtu := n } := by
  unfold clamped
  split
  · exact ⟨_, rfl⟩
  · exact ⟨_, rfl⟩

/-- The steps of a validation and its checks. -/
theorem configValidate_iff {sd : Option (List Char)} {g' : Gcfg} : configValidate g sd = .ok g' ↔ g.map6List ≠ [] ∧
    ∃ g₁ g₂, stateDirectory g sd = .ok g₁ ∧ (settled g₁).localAddr4 ≠ 0 ∧ insertSelf (settled g₁) = .ok g₂ ∧
      (clamped g₂).tundev ≠ [] ∧ g' = clamped g₂ := by
  have hbind : g.map6List ≠ [] → configValidate g sd = (stateDirectory g sd >>= fun g₁ =>
      if (settled g₁).localAddr4 = 0 then .error .reject else insertSelf (settled g₁) >>= fun g₂ =>
        if (clamped g₂).tundev = [] then .error .reject else .ok (clamped g₂)) := by
    intro hm
    unfold configValidate
    rw [if_neg hm]
    rfl
  by_cases hm : g.map6List = []
  · refine iff_of_false (fun hr => ?_) fun h => h.1 hm
    unfold configValidate at hr
    rw [if_pos hm] at hr
    cases hr
  rw [hbind hm]
  constructor
  · intro hr
    obtain ⟨g₁, h1, h2⟩ := bind_eq_ok.1 hr
    split at h2
    · cases h2
    rename_i h4
    obtain ⟨g₂, h3, h5⟩ := bind_eq_ok.1 h2
    split at h5
    · cases h5
    rename_i ht
    cases h5
    exact ⟨hm, g₁, g₂, h1, h4, h3, ht, rfl⟩
  · rintro ⟨-, g₁, g₂, h1, h4, h3, ht, rfl⟩
    refine bind_eq_ok.2 ⟨g₁, h1, ?_⟩
    rw [if_neg h4]
    refine bind_eq_ok.2 ⟨g₂, h3, ?_⟩
    rw [if_neg ht]

theorem configValidate_eq_ok {sd : Option (List Char)} {g' : Gcfg} (hr : configValidate g sd = .ok g') :
    ∃ g₁ g₂, stateDirectory g sd = .ok g₁ ∧ insertSelf (settled g₁) = .ok g₂ ∧ g' = clamped g₂ := by
  obtain ⟨-, g₁, g₂, h1, -, h2, -, h3⟩ := configValidate_iff.1 hr
  exact ⟨g₁, g₂, h1, h2, h3⟩

theorem ConfInv.settled (h : ConfInv g) : ConfInv (settled g) := by
  obtain ⟨b, n, heq⟩ := settled_eq g
  rw [heq]
  exact h.other (by constructor <;> rfl) rfl

theorem Validated.clamped (h : Validated g) : Validated (clamped g) := by
  obtain ⟨n, heq⟩ := clamped_eq g
  rw [heq]
  exact h.congr (by constructor <;> rfl) rfl rfl rfl rfl

theorem ConfInv.configValidate (h : ConfInv g) {sd : Option (List Char)} {g' : Gcfg}
    (hr : configValidate g sd = .ok g') : Validated g' := by
  obtain ⟨g₁, g₂, h1, h2, rfl⟩ := configValidate_eq_ok hr
  exact ((h.stateDirectory h1).settled.insertSelf h2).clamped

/-! ### The state the program starts in -/

/-- Without leases and without cached pairs the invariant is that of the maps, the pool and the cache. -/
private theorem inv_of_empty (hm : MapsInv g)
    (hp : ∀ p, g.dynamicPool = some p → PoolInv g p ∧ p.mappedList = [] ∧ p.dormantList = []) (hc : CacheInv g)
    (ha : g.cacheActive = []) : Inv g := by
  have hnone : g.mapped = [] ∧ g.dormant = [] := by
    unfold Gcfg.mapped Gcfg.dormant
    cases hpp : g.dynamicPool with
    | none => exact ⟨rfl, rfl⟩
    | some p => exact (hp p hpp).2
  refine ⟨hm, fun p hpp => (hp p hpp).1, ?_, hc, ?_, ?_⟩
  · intro d hd
    rw [hnone.1, hnone.2] at hd
    simp at hd
  · rintro a x ⟨c, hca, -⟩
    rw [ha] at hca
    cases hca
  · refine ⟨?_, ?_, ?_⟩ <;> intro d hd
    · rw [hnone.1] at hd
      cases hd
    · rw [hnone.1] at hd
      cases hd
    · rw [hnone.2] at hd
      cases hd

/-- The state with a fresh cache. -/
def freshCache (g : Gcfg) : Gcfg := { g with
  hashTable4 := fun _ => []
  hashTable6 := fun _ => []
  entries := fun _ => ⟨0, 0, 0, false, 0⟩
  cachePool := List.range g.cacheSize }

theorem createCache_eq_ok (h : NoCache g) {g' : Gcfg} (hr : createCache g = .ok g') : g' = freshCache g := by
  unfold createCache at hr
  split at hr
  · cases hr
  · rw [if_pos ⟨h.cachePool, h.cacheActive⟩] at hr
    exact (Except.ok.inj hr).symm

theorem cacheInv_freshCache (ha : g.cacheActive = []) : CacheInv (freshCache g) where
  size h0 := by
    have h0' : g.cacheSize = 0 := h0
    have e : (freshCache g).cachePool = List.range g.cacheSize := rfl
    rw [e, h0']
    exact ⟨rfl, ha⟩
  nodup := by
    have e : (freshCache g).cachePool = List.range g.cacheSize := rfl
    have e' : (freshCache g).cacheActive = [] := ha
    rw [e, e', List.append_nil]
    exact List.nodup_range
  hash4 b c := by
    have e : (freshCache g).cacheActive = [] := ha
    rw [e]
    simp [freshCache]
  hash6 b c := by
    have e : (freshCache g).cacheActive = [] := ha
    rw [e]
    simp [freshCache]
  unique c hc := by
    have e : (freshCache g).cacheActive = [] := ha
    rw [e] at hc
    cases hc

theorem NoCache.cacheInv (h : NoCache g) : CacheInv g where
  size _ := ⟨h.cachePool, h.cacheActive⟩
  nodup := by simp [h.cachePool, h.cacheActive]
  hash4 := by simp [h.cacheActive, h.hashTable4]
  hash6 := by simp [h.cacheActive, h.hashTable6]
  unique := by simp [h.cacheActive]

theorem Validated.freshCache (h : Validated g) : Inv (freshCache g) := by
  have hs : SameMaps g (Tayga.freshCache g) := by constructor <;> intros <;> rfl
  refine inv_of_empty (hs.mapsInv h.maps) (fun p hp => ?_) (cacheInv_freshCache h.noCache.cacheActive)
    h.noCache.cacheActive
  obtain ⟨h1, h2⟩ := h.pool p hp
  exact ⟨hs.poolInv h1, h2⟩

/-- The startup ends with a validated configuration, with a fresh cache if there is to be one. -/
theorem startup_eq_ok {e : Endian} {now : Int} {content : List Char} {sd : Option (List Char)}
    {rand : Nat → BitVec 32} (hr : startup libc e now content sd rand = .ok g) :
    ∃ s, Validated s ∧ (g = s ∨ g = freshCache s) := by
  obtain ⟨g₁, h1, hr⟩ := bind_eq_ok.1 hr
  obtain ⟨g₂, h2, hr⟩ := bind_eq_ok.1 hr
  have hv := ((confInv_configInit e now).configRead h1).configValidate h2
  split at hr
  · have hv' : Validated (drawRand g₂ rand) := hv.congr (by constructor <;> rfl) rfl rfl rfl rfl
    exact ⟨_, hv', Or.inr (createCache_eq_ok hv'.noCache hr)⟩
  · cases hr
    exact ⟨g, hv, Or.inl rfl⟩

/-- **Every accepted configuration leads to a state that keeps the invariant.** -/
theorem startup_inv {e : Endian} {now : Int} {content : List Char} {sd : Option (List Char)}
    {rand : Nat → BitVec 32} (hr : startup libc e now content sd rand = .ok g) : Inv g := by
  obtain ⟨s, hv, rfl | rfl⟩ := startup_eq_ok hr
  · exact inv_of_empty hv.maps hv.pool hv.noCache.cacheInv hv.noCache.cacheActive
  · exact hv.freshCache

theorem cacheActive_startup {e : Endian} {now : Int} {content : List Char} {sd : Option (List Char)}
    {rand : Nat → BitVec 32} (hr : startup libc e now content sd rand = .ok g) : g.cacheActive = [] := by
  obtain ⟨s, hv, rfl | rfl⟩ := startup_eq_ok hr <;> exact hv.noCache.cacheActive

/-! ### A sample network -/

/-- `inet_pton` on the addresses of the sample files. -/
def sampleLibc : Libc where
  inetPton4 s :=
    if s = "192.0.2.1".toList then some 0xc0000201
    else if s = "198.18.0.0".toList then some 0xc6120000
    else if s = "198.18.0.4".toList then some 0xc6120004
    else if s = "198.18.0.5".toList then some 0xc6120005
    else if s = "169.254.0.0".toList then some 0xa9fe0000
    else none
  inetPton6 s :=
    if s = "2001:db8:1::".toList then some 0x20010db8000100000000000000000000
    else if s = "2001:db8:2::".toList then some 0x20010db8000200000000000000000000
    else if s = "2001:db8::99".toList then some 0x20010db8000000000000000000000099
    else none

/-- A startup with a configuration file that holds the given lines after the translator's address and prefix. -/
def startWith (lines : String) : Except Error Gcfg :=
  startup sampleLibc .little 1000000
    ("tun-device nat64\nipv4-addr 192.0.2.1\nprefix 2001:db8:1::/96\n".toList ++ lines.toList) none fun _ => 0

/-- A pool of eight addresses and a map file. -/
def sampleStart : Except Error Gcfg := startWith "dynamic-pool 198.18.0.0/29\nmap-file maps\n"

theorem start_any {r : Except Error Gcfg} {p : Gcfg → Prop} [DecidablePred p] (h : r.toOption.any (fun g => p g)) :
    ∃ g, r = .ok g ∧ p g := by
  cases r with
  | error e => cases h
  | ok g => exact ⟨g, rfl, of_decide_eq_true h⟩

end Tayga
