import Tayga.LifetimeRuns
import Tayga.Searching

/-!
# The addresses of the leases

What an operation of the mapper does to the pool: it keeps the network of the pool, and the leases have their old IPv4
addresses, except for the one lease that an assignment or a line of the saved file gives an unused address
(`Held.step`, `Held.loadDynamic`).
-/

namespace Tayga

variable {g g' s : Gcfg} {libc : Libc} {net : Option Map4} {ok : In4 → Prop}

/-- The pool has this network, and the IPv4 address of every lease is one of these. -/
structure Held (net : Option Map4) (ok : In4 → Prop) (g : Gcfg) : Prop where
  pool : g.dynamicPool.map DynamicPool.map4 = net
  leases : ∀ d ∈ g.leases, ok (g.v4 d)

/-- The addresses that may be given away are among these. -/
def Offers (g : Gcfg) (ok : In4 → Prop) : Prop := ∀ p, g.dynamicPool = some p → ∀ a, Usable g p a → ok a

private theorem offers_any : Offers g fun _ => True := fun _ _ _ _ => trivial

/-- An event that gives a new address away has only such addresses to give: `assign_dynamic` is called, and the host has
no dormant lease to get back. -/
def AssignsFrom (ok : In4 → Prop) (s : System) (e : Event) : Prop :=
  ∀ w x, e = .finish w → s.pending w = some (.six x true) → findMap6 s.map x = none →
    (∀ d ∈ s.map.dormant, s.map.v6 d ≠ x) → Offers s.map ok

namespace Held

/-! ### Operations that assign nothing -/

theorem sub (h : Held net ok g) (hp : g'.dynamicPool.map DynamicPool.map4 = g.dynamicPool.map DynamicPool.map4)
    (hl : ∀ d ∈ g'.leases, d ∈ g.leases) (h4 : ∀ d, g'.v4 d = g.v4 d) : Held net ok g' where
  pool := hp.trans h.pool
  leases d hd := by
    rw [h4]
    exact h.leases d (hl d hd)

theorem congr (h : Held net ok g) (hp : g'.dynamicPool = g.dynamicPool) (h4 : ∀ d, g'.v4 d = g.v4 d) :
    Held net ok g' := by
  refine h.sub (by rw [hp]) (fun d hd => ?_) h4
  simpa only [Gcfg.leases, Gcfg.mapped, Gcfg.dormant, hp] using hd

theorem of_sameMaps (h : Held net ok g) (hs : SameMaps g g') : Held net ok g' := h.congr hs.dynamicPool hs.v4

private theorem of_sameLeases (h : Held net ok g) (hs : SameLeases g g') : Held net ok g' := by
  refine h.sub ?_ (fun d hd => hs.leases.mem_iff.1 hd) hs.v4
  have hpool := hs.pool
  have hsome := hs.isSome
  simp only [Gcfg.map4] at hpool
  cases hp : g.dynamicPool with
  | none =>
    rw [hp] at hsome
    have hnone : g'.dynamicPool = none := by simpa using hsome
    rw [hnone]
  | some p =>
    rw [hp] at hsome hpool
    obtain ⟨q, hq⟩ := Option.isSome_iff_exists.1 hsome
    rw [hq] at hpool ⊢
    exact congrArg some hpool

theorem moveToDormant (h : Held net ok g) {d : Nat} (hd : d ∈ g.mapped) : Held net ok (moveToDormant g d) := by
  obtain ⟨p, hp⟩ := exists_pool (.inl hd)
  obtain ⟨l, -, hl⟩ := dynamicPool_moveToDormant (d := d) hp
  refine h.sub (by rw [hl, hp]; rfl) (fun e he => ?_) fun _ => rfl
  rw [Gcfg.leases, List.mem_append, mem_mapped_moveToDormant hp, mem_dormant_moveToDormant hp] at he
  rw [Gcfg.leases, List.mem_append]
  rcases he with ⟨he, -⟩ | rfl | he
  · exact Or.inl he
  · exact Or.inl hd
  · exact Or.inr he

theorem expireLease (h : Held net ok g) {p : DynamicPool} (hp : g.dynamicPool = some p) {d : Nat} :
    Held net ok (expireLease g p d) := by
  cases hr : prevRun (FreeRef.host d) p.freeList with
  | none =>
    have e : Tayga.expireLease g p d = g := by
      unfold Tayga.expireLease
      rw [hr]
    rw [e]
    exact h
  | some f =>
    rw [expireLease_eq hr]
    obtain ⟨v, hv⟩ := dynamicPool_joined (g := g) (p := p) (d := d) (f := f)
    refine h.sub (by rw [hv, hp]; rfl) (fun e he => ?_) fun e => ?_
    · rw [Gcfg.leases, mapped_of_pool hv, dormant_of_pool hv, List.mem_append, List.mem_filter] at he
      rw [Gcfg.leases, mapped_of_pool hp, dormant_of_pool hp, List.mem_append]
      exact he.imp_right And.left
    · simp only [Gcfg.v4, hosts_joined]

theorem dynamicMaint (h : Held net ok g) (hb : Base g) (shutdown : Bool) : Held net ok (dynamicMaint g shutdown).1 :=
  dynamicMaint_induct (P := Held net ok) (fun _ _ h hd _ _ => h.moveToDormant hd)
    (fun _ _ _ h hp _ _ => h.expireLease hp) (fun _ _ h => h.congr rfl fun _ => rfl)
    (fun p hp => (hb.runs p hp).nodup_mapped) h shutdown

theorem addrmapMaint (h : Held net ok g) (hb : Base g) : Held net ok (addrmapMaint g) :=
  addrmapMaint_induct (P := Held net ok) (fun s c h _ => h.of_sameMaps (sameMaps_releaseEntry s c))
    hb.cache.nodup_active h

theorem addrmapReload (h : Held net ok g) (hb : Base g) (file : Option MapFileRead) :
    Held net ok (addrmapReload g libc file).2 :=
  h.congr (dynamicPool_addrmapReload hb file) (KeepsBooks.addrmapReload hb file).v4

/-! ### Assignment -/

/-- A new lease has an address that was usable; the other ways of assigning keep every address. -/
private theorem rise (h : Held net ok g) (hb : Base g) {x : In6} {d : Nat} {g₁ : Gcfg} (hr : Rise g x d g₁)
    (hv : validateIp6Addr x = none) (hok : (∀ d ∈ g.dormant, g.v6 d ≠ x) → Offers g ok) :
    Held net ok (moveToMapped g₁ d) := by
  refine of_sameLeases ?_ (SameLeases.moveToMapped (hr.base hb hv) hr.dormant)
  cases hr with
  | same => exact h
  | @fresh p f a hp hf hnone =>
    obtain ⟨v, hpool⟩ := dynamicPool_fresh (g := g) (p := p) (x := x) (a := a) (f := f)
    have hfresh : Held net ok (fresh g p x a f) := by
      refine ⟨?_, fun e he => ?_⟩
      · rw [hpool, ← h.pool, hp]
        rfl
      · rw [Gcfg.leases, mapped_of_pool hpool, dormant_of_pool hpool, List.mem_append, List.mem_cons] at he
        have hold : e ≠ g.nHosts → ok ((fresh g p x a f).v4 e) := by
          intro hne
          rw [v4_fresh_of_ne hne]
          refine h.leases e ?_
          rw [Gcfg.leases, mapped_of_pool hp, dormant_of_pool hp, List.mem_append]
          exact he.imp_right fun he => he.resolve_left hne
        by_cases hne : e = g.nHosts
        · rw [hne, v4_fresh_self]
          exact hok hnone p hp _ ((usable_iff hb hp).2 ⟨f, by rw [hf.toNat (hb.runs p hp)]; exact hf⟩)
        · exact hold hne
    exact hfresh.congr rfl fun _ => rfl
  | reuse => exact h.congr rfl fun e => v4_readdress d e x

theorem slow (h : Held net ok g) (hb : Base g) {l : Lookup} (hl : l.Checked)
    (hok : ∀ x, l = .six x true → findMap6 g x = none → (∀ d ∈ g.dormant, g.v6 d ≠ x) → Offers g ok) :
    Held net ok (l.slow g) := by
  cases l with
  | four a =>
    show Held net ok (slow4 g a).2
    unfold slow4
    cases resolve4 g a with
    | error e => exact h
    | ok f => exact h.of_sameMaps (sameMaps_publish hb.cache ..)
  | six x dyn =>
    show Held net ok (slow6 g x dyn).2
    by_cases hx : findMap6 g x ≠ none ∨ dyn = false
    · rw [slow6_of_find hx]
      cases resolve6 g x with
      | error e => exact h
      | ok f => exact h.of_sameMaps (sameMaps_publish hb.cache ..)
    · rw [not_or, not_not, Bool.not_eq_false] at hx
      obtain ⟨hx, rfl⟩ := hx
      rcases assignDynamic_rise hb x with ⟨e, -⟩ | ⟨d, g₁, e, hr⟩
      · rw [slow6_of_no_assign hx e]
        exact h
      · rw [slow6_of_assign hx e]
        have hm := h.rise hb hr (hl rfl) (hok x rfl hx)
        exact hm.of_sameMaps (sameMaps_publish ((hr.base hb (hl rfl)).moveToMapped hr.dormant).cache ..)

/-- An event assigns usable addresses only. -/
theorem step {s : System} (h : Held net ok s.map) (hs : SysBase s) {e : Event} (he : AssignsFrom ok s e) :
    Held net ok (Tayga.step libc s e).map := by
  refine step_map_induct h (fun c => h.of_sameMaps (sameMaps_touch c)) (fun w l hw hp => ?_) (h.addrmapMaint hs.base)
    (h.dynamicMaint hs.base) (fun t b => ?_) (h.addrmapReload hs.base) (fun _ => h.congr rfl fun _ => rfl)
    fun _ => h.congr rfl fun _ => rfl
  · exact h.slow hs.base (hs.checked w l hp) fun x hx => he w x hw (by rw [hp, hx])
  · cases b <;> exact h.congr rfl fun _ => rfl

/-! ### The saved leases -/

/-- The load into a mapper without leases stores the lines whose address is usable. -/
theorem loadRows (hb : Base g) {p : DynamicPool} (hp : g.dynamicPool = some p) (hl : g.leases = []) (hok : Offers g ok)
    (rows : List DynamicSnapshot) : Held (some p.map4) ok (loadRows g rows) := by
  have hnone : Held (some p.map4) ok g := by
    refine ⟨by rw [hp]; rfl, ?_⟩
    rw [hl]
    exact fun _ hd => absurd hd List.not_mem_nil
  cases ho : g.oom with
  | true =>
    rw [loadRows_of_oom ho]
    exact hnone
  | false =>
    obtain ⟨hm, hd⟩ := List.append_eq_nil_iff.1 hl
    have hload := loading_loadRows hb hp hm hd ho rows
    generalize Tayga.loadRows g rows = s at hload
    obtain ⟨q, hq, hmap⟩ := hload.same.pool_map4 hp
    refine ⟨by rw [hq, ← hmap]; rfl, fun d hdl => ?_⟩
    rw [Gcfg.leases, hload.mapped, List.nil_append] at hdl
    have hadm := hload.admissible _ (hload.rows.mem_iff.1 (List.mem_map_of_mem hdl))
    obtain ⟨hmem, hpool, -⟩ := hb.pool_mem hp
    have hfind := hadm.find4
    rw [findMap4_eq, hb.tables.list4.find_eq_some, hpool] at hfind
    refine hok p hp _ ⟨hfind.2.1, hadm.ne_base, hfind.2.2, ?_⟩
    rw [hl]
    exact fun _ hd => absurd hd List.not_mem_nil

theorem loadDynamic (hb : Base g) (hl : g.leases = []) (file : Option (List Char)) (time : Int)
    (hok : file.isSome → Offers g ok) :
    Held (g.dynamicPool.map DynamicPool.map4) ok (loadDynamic g libc file time) := by
  unfold Tayga.loadDynamic
  split
  · rename_i p content hp
    have hrows := Held.loadRows hb hp hl (hok rfl) (dynamicRows libc content)
    have hbase := hb.loadRows (dynamicRows libc content)
    refine of_sameLeases ?_ (SameLeases.settleLeases (hbase.tick time))
    rw [hp]
    exact hrows.congr rfl fun _ => rfl
  · refine ⟨rfl, ?_⟩
    rw [hl]
    exact nofun

end Held

/-! ### The network of the pool -/

/-- The pool the configuration file sets up is of at least two addresses, and its lowest one is in no reserved class. -/
structure PoolChecked (g : Gcfg) : Prop where
  len : ∀ p, g.dynamicPool = some p → p.map4.prefixLen ≤ 31
  base : ∀ p, g.dynamicPool = some p → validateIp4Addr p.map4.addr ≠ some .drop

theorem PoolChecked.congr (h : PoolChecked g) (hp : g'.dynamicPool = g.dynamicPool) : PoolChecked g' := by
  refine ⟨?_, ?_⟩ <;> rw [hp]
  · exact h.len
  · exact h.base

private theorem PoolChecked.of_none (h : g.dynamicPool = none) : PoolChecked g := by
  refine ⟨?_, ?_⟩ <;> rw [h] <;> intro p hp <;> cases hp

theorem PoolChecked.configRead {content : List Char} (h : PoolChecked g) (hc : ConfInv g)
    (hr : configRead g libc content = .ok g') : PoolChecked g' := by
  refine (configRead_induct (P := fun g => ConfInv g ∧ PoolChecked g) (fun g g' h hc => ⟨h.1.change hc, ?_⟩) ⟨hc, h⟩
    hr).2
  cases hc with
  | other hs => exact h.2.congr hs.dynamicPool
  | static _ _ hs =>
    obtain ⟨-, -, rfl⟩ := insertStatic_eq_ok h.1.lists hs
    exact h.2.congr rfl
  | pool hp =>
    unfold configDynamicPool at hp
    split at hp
    · cases hp
    split at hp
    · cases hp
    split at hp
    · cases hp
    split at hp
    · cases hp
    rename_i hres
    split at hp
    · cases hp
    rename_i hlen
    obtain ⟨-, rfl⟩ := insertMap4_eq_ok.1 (orReject_eq_ok.1 hp)
    refine ⟨?_, ?_⟩ <;> rintro q ⟨⟩
    · exact Nat.le_of_not_lt hlen
    · exact fun hd => hres (decide_eq_true hd)

theorem PoolChecked.configValidate {sd : Option (List Char)} (h : PoolChecked g) (hc : ConfInv g)
    (hr : configValidate g sd = .ok g') : PoolChecked g' := by
  obtain ⟨g₁, g₂, h1, h2, rfl⟩ := configValidate_eq_ok hr
  have e1 : g₁.dynamicPool = g.dynamicPool := by
    obtain ⟨d, rfl⟩ := stateDirectory_eq_ok h1
    rfl
  have e2 : (settled g₁).dynamicPool = g₁.dynamicPool := by
    obtain ⟨b, n, heq⟩ := settled_eq g₁
    rw [heq]
  have e3 := (insertSelf_spec (hc.stateDirectory h1).settled h2).2.frame.1
  have e4 : (clamped g₂).dynamicPool = g₂.dynamicPool := by
    obtain ⟨n, heq⟩ := clamped_eq g₂
    rw [heq]
  exact h.congr (e4.trans (e3.trans (e2.trans e1)))

private theorem poolChecked_startup {e : Endian} {now : Int} {content : List Char} {sd : Option (List Char)}
    {rand : Nat → BitVec 32} (hr : startup libc e now content sd rand = .ok g) : PoolChecked g := by
  obtain ⟨g₁, h1, hr⟩ := bind_eq_ok.1 hr
  obtain ⟨g₂, h2, hr⟩ := bind_eq_ok.1 hr
  have hc := confInv_configInit e now
  have hchecked := (PoolChecked.configRead (.of_none rfl) hc h1).configValidate (hc.configRead h1) h2
  split at hr
  · have hno := ((hc.configRead h1).configValidate h2).noCache
    have hdraw : NoCache (drawRand g₂ rand) := ⟨hno.cachePool, hno.cacheActive, hno.hashTable4, hno.hashTable6⟩
    rw [createCache_eq_ok hdraw hr]
    exact hchecked.congr rfl
  · cases hr
    exact hchecked

/-- The check passes from one state to another with the network of the pool. -/
private theorem PoolChecked.of_held (h : PoolChecked g) (hh : Held (g.dynamicPool.map DynamicPool.map4) ok g') :
    PoolChecked g' := by
  have key : ∀ q, g'.dynamicPool = some q → ∃ p, g.dynamicPool = some p ∧ p.map4 = q.map4 := by
    intro q hq
    have hp := hh.pool
    rw [hq] at hp
    exact Option.map_eq_some_iff.1 hp.symm
  constructor <;> intro q hq <;> obtain ⟨p, hp, hpq⟩ := key q hq <;> rw [← hpq]
  · exact h.len p hp
  · exact h.base p hp

/-! ### Runs -/

/-- The state in which the workers start has the pool of the configuration, and its leases are among the lines. -/
private theorem held_start {e : Endian} {now : Int} {content : List Char} {sd : Option (List Char)}
    {rand : Nat → BitVec 32} {g₀ : Gcfg} (hs : startup libc e now content sd rand = .ok g₀) {maps : Option MapFileRead}
    (hr : addrmapReload g₀ libc maps = (.ok (), g)) (fails : Bool) (file : Option (List Char)) (time : Int)
    (hok : file.isSome → Offers g ok) :
    PoolChecked g ∧ Held (g.dynamicPool.map DynamicPool.map4) ok (loadDynamic { g with oom := fails } libc file time) ∧
      Base (loadDynamic { g with oom := fails } libc file time) := by
  obtain ⟨hi, hl⟩ := booted hs hr
  have hb := (hi.alloc fails).base
  refine ⟨?_, Held.loadDynamic hb hl file time fun hf p hp a ha => hok hf p hp a ?_, hb.loadDynamic file time⟩
  · have hpool : (addrmapReload g₀ libc maps).2.dynamicPool = g₀.dynamicPool :=
      dynamicPool_addrmapReload (startup_inv hs).base maps
    rw [hr] at hpool
    exact (poolChecked_startup hs).congr hpool
  · exact ⟨ha.pool, ha.base, ha.map, ha.lease⟩

/-- What the addresses have in common that the assignments of a run find, all leases have in common. -/
theorem Held.run {s : System} (h : Held net ok s.map) (hs : SysBase s) {es : List Event}
    (ha : Run.Along (Tayga.step libc) (AssignsFrom ok) s es) : Held net ok (Run.run (Tayga.step libc) s es).map :=
  (ha.inv (I := fun s => SysBase s ∧ Held net ok s.map) (fun _ _ h he => ⟨h.1.step _, h.2.step h.1 he⟩) ⟨hs, h⟩).2

/-- The system without the times. -/
private theorem sys_run (s : Timed) (es : List Event) :
    (Run.run (timedStep libc) s es).sys = Run.run (step libc) s.sys es := by
  induction es generalizing s with
  | nil => rfl
  | cons e es ih => exact ih _

/-- **`assign_dynamic` is sound and complete in every state of every run**: the hash loop ends, and the host gets its
own dormant lease back, else a usable address, else the oldest dormant lease, and is refused only when there is none. -/
theorem assign_dynamic_run {e : Endian} {now : Int} {content : List Char} {sd : Option (List Char)}
    {rand : Nat → BitVec 32} {g₀ : Gcfg} (hs : startup libc e now content sd rand = .ok g₀) {maps : Option MapFileRead}
    (hr : addrmapReload g₀ libc maps = (.ok (), g)) (fails : Bool) (file : Option (List Char)) (time : Int)
    (es : List Event) :
    let s := Run.run (timedStep libc) (.start (loadDynamic { g with oom := fails } libc file time)) es
    let m := s.sys.map
    ∀ p, m.dynamicPool = some p → m.oom = false →
      (∀ base, foldHash (hostMask p.map4.prefixLen) p.map4.prefixLen base.toNat base &&&
        ~~~hostMask p.map4.prefixLen = 0) ∧
      ∀ x, Assigned m p x (assignDynamic m x).1 (assignDynamic m x).2 := by
  intro s m p hp hoom
  have h : TimedInv s := (timedInv_start hs hr fails file time).run es
  have hheld : PoolChecked m := by
    obtain ⟨hc, h₀, hb⟩ := held_start hs hr fails file time fun _ => offers_any
    refine hc.of_held (?_ : Held _ (fun _ => True) s.sys.map)
    rw [sys_run]
    exact Held.run h₀ hb.start (.of_inv (I := fun _ => True) (fun _ _ h => h) (fun _ _ _ _ _ _ _ _ _ => offers_any)
      trivial es)
  exact ⟨fun base => foldHash_exits (hheld.len p hp) (Nat.le_refl _),
    assignDynamic_assigned h.life.base h.life.sorted hp hoom⟩

/-- After two packets of a host. -/
theorem assign_dynamic_run_sample : ∃ g, sampleData = .ok g ∧
    let m := (Run.run (timedStep sampleLibc) (.start (loadDynamic { g with oom := false } sampleLibc none 1000000))
      sampleUse).sys.map
    ∃ p, m.dynamicPool = some p ∧ ∀ x, Assigned m p x (assignDynamic m x).1 (assignDynamic m x).2 := by
  obtain ⟨g, hs, hm, hpool, hoom⟩ := start_any (r := sampleData) (p := fun g => g.mapFile = [] ∧
    let m := (Run.run (timedStep sampleLibc) (.start (loadDynamic { g with oom := false } sampleLibc none 1000000))
      sampleUse).sys.map
    m.dynamicPool.isSome ∧ m.oom = false) (by decide +kernel)
  obtain ⟨p, hp⟩ := Option.isSome_iff_exists.1 hpool
  have hload : addrmapReload g sampleLibc none = (.ok (), g) := by
    unfold addrmapReload
    rw [if_pos hm]
  exact ⟨g, hs, p, hp, (assign_dynamic_run hs hload false none 1000000 sampleUse p hp hoom).2⟩

/-! ### Reserved addresses in the pool -/

/-- The addresses that can be answered. -/
def Answerable (a : In4) : Prop := validateIp4Addr a ≠ some .drop

instance : DecidablePred Answerable := fun a => inferInstanceAs (Decidable (validateIp4Addr a ≠ some .drop))

/-- The classes of reserved addresses; a link-local address is in none of them. -/
private theorem validateIp4Addr_eq_drop {a : In4} : validateIp4Addr a = some .drop ↔ a &&& 0xff000000 = 0 ∨
    a &&& 0xff000000 = 0x7f000000 ∨ a &&& 0xf0000000 = 0xe0000000 ∨ a = 0xffffffff := by
  unfold validateIp4Addr
  split_ifs with h1 h2 h3 h4 h5
  · exact iff_of_true rfl (Or.inl h1)
  · exact iff_of_true rfl (Or.inr (Or.inl h2))
  · have hnibble : a &&& 0xf0000000 = 0xa0000000 := by
      have hsub : (0xf0000000 : In4) = 0xffff0000 &&& 0xf0000000 := by decide
      rw [hsub, ← BitVec.and_assoc, h3]
      decide
    refine iff_of_false nofun ?_
    rintro (h | h | h | rfl)
    · exact h1 h
    · exact h2 h
    · rw [hnibble] at h
      exact absurd h (by decide)
    · exact absurd hnibble (by decide)
  · exact iff_of_true rfl (Or.inr (Or.inr (Or.inl h4)))
  · exact iff_of_true rfl (Or.inr (Or.inr (Or.inr h5)))
  · refine iff_of_false nofun ?_
    rintro (h | h | h | h)
    · exact h1 h
    · exact h2 h
    · exact h4 h
    · exact h5 h

/-- In a network of length 8 or more whose lowest address is in no reserved class, only the very last address may be
in one. -/
private theorem answerable_of_covers {m : Map4} (hw : m.Wf) (h8 : 8 ≤ m.prefixLen) (hbase : Answerable m.addr) {a : In4}
    (hc : m.covers a = true) (hlast : a ≠ 0xffffffff) : Answerable a := by
  have hmask : ∀ l : Fin 33, 8 ≤ (l : Nat) → 0xff000000 &&& ip4Mask l = 0xff000000 := by decide
  have hcov : m.addr = m.mask &&& a := of_decide_eq_true hc
  -- the lowest address and this one agree in the first byte
  have hbyte : 0xff000000 &&& m.addr = 0xff000000 &&& a := by
    have hm := hmask ⟨m.prefixLen, by have := hw.len_le; omega⟩ h8
    rw [hcov, hw.mask_eq, ← BitVec.and_assoc, hm]
  rw [BitVec.and_comm, BitVec.and_comm _ a] at hbyte
  have hnibble : m.addr &&& 0xf0000000 = a &&& 0xf0000000 := by
    have hsub : (0xf0000000 : In4) = 0xff000000 &&& 0xf0000000 := by decide
    rw [hsub, ← BitVec.and_assoc, ← BitVec.and_assoc, hbyte]
  intro hd
  refine hbase (validateIp4Addr_eq_drop.2 ?_)
  rw [hbyte, hnibble]
  rcases validateIp4Addr_eq_drop.1 hd with h | h | h | h
  · exact Or.inl h
  · exact Or.inr (Or.inl h)
  · exact Or.inr (Or.inr (Or.inl h))
  · exact absurd h hlast

/-- A pool of length 8 or more without the very last address has only addresses that can be answered. -/
private theorem PoolChecked.offers (h : PoolChecked g) (hb : Base g)
    (hpool : ∀ p, g.dynamicPool = some p → 8 ≤ p.map4.prefixLen ∧ p.map4.covers 0xffffffff = false) :
    Offers g Answerable := by
  intro p hp a ha
  obtain ⟨h8, hlast⟩ := hpool p hp
  refine answerable_of_covers (hb.wf_pool hp) h8 (h.base p hp) ha.pool ?_
  rintro rfl
  rw [ha.pool] at hlast
  cases hlast

/-- **The addresses of the leases can be answered** after every run whose assignments find only such addresses free. -/
theorem dynamic_addresses_run {e : Endian} {now : Int} {content : List Char} {sd : Option (List Char)}
    {rand : Nat → BitVec 32} {g₀ : Gcfg} (hs : startup libc e now content sd rand = .ok g₀) {maps : Option MapFileRead}
    (hr : addrmapReload g₀ libc maps = (.ok (), g)) (fails : Bool) (file : Option (List Char)) (time : Int)
    (hload : file.isSome → Offers g Answerable) {es : List Event}
    (ha : Run.Along (step libc) (AssignsFrom Answerable) (.start (loadDynamic { g with oom := fails } libc file time))
      es) :
    let m := (Run.run (step libc) (.start (loadDynamic { g with oom := fails } libc file time)) es).map
    ∀ d ∈ m.leases, Answerable (m.v4 d) := by
  obtain ⟨-, h₀, hb⟩ := held_start hs hr fails file time hload
  exact (Held.run h₀ hb.start ha).leases

/-- Such a pool gives away only addresses that can be answered, in every run. -/
private theorem PoolChecked.along (h : PoolChecked g)
    (hpool : ∀ p, g.dynamicPool = some p → 8 ≤ p.map4.prefixLen ∧ p.map4.covers 0xffffffff = false) {s : System}
    (hs : SysBase s) (hheld : Held (g.dynamicPool.map DynamicPool.map4) (fun _ => True) s.map) (es : List Event) :
    Run.Along (step libc) (AssignsFrom Answerable) s es := by
  refine .of_inv (I := fun s => SysBase s ∧ Held (g.dynamicPool.map DynamicPool.map4) (fun _ => True) s.map)
    (fun s e hi => ?_) (fun s e hi => ?_) ⟨hs, hheld⟩ es
  · exact ⟨hi.1.step e, hi.2.step hi.1 fun _ _ _ _ _ _ => offers_any⟩
  · intro w x _ _ _ _
    refine (h.of_held hi.2).offers hi.1.base fun q hq => ?_
    have hm := hi.2.pool
    rw [hq] at hm
    obtain ⟨p, hp, hpq⟩ := Option.map_eq_some_iff.1 hm.symm
    rw [← hpq]
    exact hpool p hp

theorem dynamic_addresses_run_sample : ∃ g, sampleData = .ok g ∧
    let m := (Run.run (step sampleLibc) (.start (loadDynamic { g with oom := false } sampleLibc none 1000000))
      sampleUse).map
    0 ∈ m.leases ∧ Answerable (m.v4 0) := by
  obtain ⟨g, hs, hm, hpool, hmem⟩ := start_any (r := sampleData) (p := fun g => g.mapFile = [] ∧
    g.dynamicPool.all (fun p => 8 ≤ p.map4.prefixLen ∧ p.map4.covers 0xffffffff = false) ∧
    0 ∈ (Run.run (step sampleLibc) (.start (loadDynamic { g with oom := false } sampleLibc none 1000000))
      sampleUse).map.leases) (by decide +kernel)
  have hload : addrmapReload g sampleLibc none = (.ok (), g) := by
    unfold addrmapReload
    rw [if_pos hm]
  obtain ⟨hc, h₀, hb⟩ := held_start hs hload false none 1000000 fun _ => offers_any
  have ha : Run.Along (step sampleLibc) (AssignsFrom Answerable) _ sampleUse :=
    hc.along (fun p hp => by rw [hp] at hpool; exact of_decide_eq_true hpool) hb.start h₀ sampleUse
  exact ⟨g, hs, hmem, dynamic_addresses_run hs hload false none 1000000 nofun ha 0 hmem⟩

/-- `inet_pton` on the last addresses. -/
def edgeLibc : Libc where
  inetPton4 s := if s = "255.255.255.254".toList then some 0xfffffffe else sampleLibc.inetPton4 s
  inetPton6 := sampleLibc.inetPton6

/-- A startup with a pool of the last two addresses. -/
def edgeStart : Except Error Gcfg := startup edgeLibc .little 1000000
  "tun-device nat64\nipv4-addr 192.0.2.1\nprefix 2001:db8:1::/96\ndynamic-pool 255.255.255.254/31\n".toList none
  fun _ => 0

/-- The broadcast address is given to a host. -/
theorem not_answerable_edge : ∃ g, edgeStart = .ok g ∧
    let m := (Run.run (step edgeLibc) (.start g) [.look 0 (.six sampleHost true), .finish 0]).map
    ∃ d ∈ m.leases, ¬Answerable (m.v4 d) := by
  obtain ⟨g, hs, hmem, hv⟩ := start_any (r := edgeStart) (p := fun g =>
    let m := (Run.run (step edgeLibc) (.start g) [.look 0 (.six sampleHost true), .finish 0]).map
    0 ∈ m.leases ∧ validateIp4Addr (m.v4 0) = some .drop) (by decide +kernel)
  exact ⟨g, hs, 0, hmem, not_not.2 hv⟩

end Tayga
