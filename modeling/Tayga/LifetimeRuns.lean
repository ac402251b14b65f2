import Tayga.LifetimeLaw
import Tayga.Saves

/-!
# The lifetime of a lease over whole runs

Before the first packet no lease has a time to keep (`Unused`), and every startup and load ends in such a state.  From
there every lease stays tracked, so in every run a lease in use stays with its host for `dyn_min_lease` after its last
packet, a lease is freed only `dyn_max_lease` after it, and the lease given to another host is the oldest dormant one
(`lease_lifetime_run`).
-/

namespace Tayga

open FirstMatch

variable {g g' s : Gcfg} {d : Nat} {libc : Libc}

/-! ### Before the first packet -/

/-- The dormant leases are in order, and neither they nor the cache know of a packet. -/
structure Asleep (g : Gcfg) : Prop where
  active : g.cacheActive = []
  entry : ∀ d ∈ g.dormant, (g.hosts d).cacheEntry = none
  sorted : Sorted g

theorem Asleep.of_no_lease (ha : g.cacheActive = []) (hl : g.leases = []) : Asleep g := by
  obtain ⟨-, hd⟩ := List.append_eq_nil_iff.1 hl
  refine ⟨ha, fun d hm => ?_, ?_⟩
  · rw [hd] at hm
    cases hm
  · rw [Sorted, hd]
    exact List.Pairwise.nil

/-- A new lease that no packet has matched takes its place. -/
private theorem Asleep.newcomer (h : Asleep g) (ha : s.cacheActive = []) (hdor : s.dormant = d :: g.dormant)
    (hd : d ∉ g.dormant) (hnew : (s.hosts d).cacheEntry = none)
    (hold : ∀ e ∈ g.dormant, (s.hosts e).cacheEntry = (g.hosts e).cacheEntry ∧
      (s.hosts e).lastUse = (g.hosts e).lastUse) : Asleep (moveToDormant s d) := by
  obtain ⟨p, hp⟩ := exists_pool (.inr (hdor ▸ List.mem_cons_self))
  refine ⟨ha, fun e he => ?_, sorted_moveToDormant ?_⟩
  · rw [mem_dormant_moveToDormant hp, hdor, List.mem_cons] at he
    show (s.hosts e).cacheEntry = none
    by_cases hed : e = d
    · rw [hed]
      exact hnew
    · have hmem := (he.resolve_left hed).resolve_left hed
      rw [(hold e hmem).1]
      exact h.entry e hmem
  · have hne : ∀ e ∈ g.dormant, decide (e ≠ d) = true := by
      intro e he
      refine decide_eq_true ?_
      rintro rfl
      exact hd he
    rw [hdor, List.filter_cons_of_neg (by simp), List.filter_eq_self.2 hne]
    refine h.sorted.imp_of_mem fun hd he hde => ?_
    rw [(hold _ hd).2, (hold _ he).2]
    exact hde

/-- A line that `load_map` accepts puts its lease in its place. -/
theorem Asleep.loadMap (h : Asleep g) (hb : Base g) (r : DynamicSnapshot) :
    Asleep (loadMap g r.addr6 r.addr4 r.lastUse) := by
  cases hp : g.dynamicPool with
  | none =>
    have e : Tayga.loadMap g r.addr6 r.addr4 r.lastUse = g := by
      unfold Tayga.loadMap
      rw [hp]
    rw [e]
    exact h
  | some p =>
    rcases loadMap_cases hb hp r with ⟨-, -, -, f, -, e⟩ | ⟨-, e⟩ <;> rw [e]
    · have hm := sameMapped_fresh (x := r.addr6) (a := r.addr4.toNat) (f := f) hb hp
      obtain ⟨v, hv⟩ := dynamicPool_fresh (g := g) (p := p) (x := r.addr6) (a := r.addr4.toNat) (f := f)
      have hlt : ∀ e ∈ g.dormant, e < g.nHosts := by
        rw [dormant_of_pool hp]
        exact fun e he => (hb.runs p hp).lease_lt e (Or.inr he)
      have hself : ((fresh g p r.addr6 r.addr4.toNat f).hosts g.nHosts).cacheEntry = none := (hosts_cut_self _).2.2
      have hother : ∀ e ∈ g.dormant, ((fresh g p r.addr6 r.addr4.toNat f).hosts e).cacheEntry = (g.hosts e).cacheEntry ∧
          ((fresh g p r.addr6 r.addr4.toNat f).hosts e).lastUse = (g.hosts e).lastUse := fun e he =>
        (hosts_cut_of_ne (Nat.ne_of_lt (hlt e he)) _).2.2
      have hdor := dormant_of_pool hv
      rw [← dormant_of_pool hp] at hdor
      have hact := hm.cacheActive.trans h.active
      unfold stored offered
      generalize fresh g p r.addr6 r.addr4.toNat f = s at hself hother hdor hact ⊢
      refine h.newcomer hact hdor (fun he => Nat.lt_irrefl _ (hlt _ he)) ?_ fun e he => ?_
      · simp [Gcfg.setHost, hself]
      · have hne : e ≠ g.nHosts := Nat.ne_of_lt (hlt e he)
        simpa [Gcfg.setHost, hne] using hother e he
    · exact h

theorem Asleep.loadRows (h : Asleep g) (hb : Base g) (rows : List DynamicSnapshot) : Asleep (loadRows g rows) := by
  induction rows generalizing g with
  | nil => exact h
  | cons r rows ih => exact ih (h.loadMap hb r) (hb.loadRows [r])

/-- A state before the first packet: the leases in use are in the IPv4 list, and nothing in it stands in the way of a
dormant one. -/
structure Unused (g : Gcfg) : Prop extends Asleep g where
  base : Base g
  unlinked : ∀ d ∈ g.mapped, (g.hosts d).cacheEntry = none
  listed : ∀ d ∈ g.mapped, .host d ∈ g.map4List
  clear : ∀ d ∈ g.dormant, ∀ m ∈ g.map4List, (g.map4 m).same (g.map4 (.host d)) = false

private theorem Unused.lifeInv (h : Unused g) : LifeInv g fun _ => none where
  base := h.base
  listed d hd := Or.inl (h.listed d hd)
  mapped d hd := by
    constructor
    · exact fun _ => nofun
    · rw [h.active]
      exact nofun
    · rw [h.active]
      exact nofun
  dormant d hd := ⟨h.entry d hd, nofun⟩
  sorted := h.sorted

/-- The map lists of a state in which a lease has come back into use. -/
private theorem map4List_moveToMapped (hd : ∀ m ∈ g.map4List, (g.map4 m).same (g.map4 (.host d)) = false) :
    (moveToMapped g d).map4List = (link4 g (.host d)).map4List := by
  have h6 : ∀ s : Gcfg, (tryInsertMap6 s (.host d)).map4List = s.map4List := by
    intro s
    unfold tryInsertMap6 insertMap6
    cases s.map6List.find? fun m => (s.map6 m).clash (s.map6 (.host d)) <;> rfl
  have e : (moveToMapped g d).map4List = (tryInsertMap6 (tryInsertMap4 g (.host d)) (.host d)).map4List := rfl
  rw [e, h6, tryInsertMap4_eq hd]

/-- A lease that comes back into use enters the IPv4 list. -/
theorem Unused.moveToMapped (h : Unused g) (hd : d ∈ g.dormant) : Unused (moveToMapped g d) := by
  have hl := map4List_moveToMapped (h.clear d hd)
  have hb := h.base.moveToMapped hd
  obtain ⟨p, hp⟩ := exists_pool (.inr hd)
  obtain ⟨l4, l6, heq, -⟩ := moveToMapped_spec h.base hd
  rw [heq] at hl hb ⊢
  have hmem : ∀ m, m ∈ l4 ↔ m = .host d ∨ m ∈ g.map4List := fun m => by
    rw [show l4 = _ from hl]
    exact mem_insertBefore
  have hmapped : ∀ e, e ∈ d :: p.mappedList.filter (· ≠ d) → e = d ∨ e ∈ g.mapped := by
    intro e he
    rw [mapped_of_pool hp]
    exact (List.mem_cons.1 he).imp_right List.mem_of_mem_filter
  have hdormant : ∀ e, e ∈ p.dormantList.filter (· ≠ d) → e ∈ g.dormant ∧ e ≠ d := by
    intro e he
    rw [dormant_of_pool hp]
    exact ⟨List.mem_of_mem_filter he, of_decide_eq_true (List.mem_filter.1 he).2⟩
  have hsort := h.sorted.filter (· ≠ d)
  rw [dormant_of_pool hp] at hsort
  simp only [hp, Option.map_some] at hb ⊢
  refine ⟨⟨h.active, fun e he => h.entry e (hdormant e he).1, hsort⟩, hb, fun e he => ?_, fun e he => ?_,
    fun e he m hm => ?_⟩
  · rcases hmapped e he with rfl | he
    · exact h.entry e hd
    · exact h.unlinked e he
  · exact (hmem _).2 ((hmapped e he).imp (congrArg _) (h.listed e))
  · obtain ⟨he, hne⟩ := hdormant e he
    have hmap : ∀ n, Gcfg.map4 { g with
        map4List := l4
        map6List := l6
        dynamicPool := some { p with
          dormantList := p.dormantList.filter (· ≠ d)
          mappedList := d :: p.mappedList.filter (· ≠ d) } } n = g.map4 n := by
      intro n
      cases n with
      | pool => simp only [Gcfg.map4, hp]
      | _ => rfl
    rw [hmap, hmap]
    rcases (hmem m).1 hm with rfl | hm
    · -- two leases have two addresses
      have hv : g.v4 d ≠ g.v4 e := fun hv =>
        hne (h.base.v4_inj (List.mem_append_right _ he) (List.mem_append_right _ hd) hv.symm)
      have hv' : ((g.hosts d).map4.addr = (g.hosts e).map4.addr) = False := eq_false hv
      simp only [Gcfg.map4, Map4.same, hv', decide_false, Bool.and_false]
    · exact h.clear e he m hm

/-- Leases dated in the future all count as last used at one time. -/
private theorem redate_spec (l : List Nat) (g : Gcfg) :
    let s := l.foldl (fun s d => s.setHost d { s.hosts d with lastUse := s.now - s.dynMinLease }) g
    SameMaps g s ∧ s.cacheActive = g.cacheActive ∧ s.now = g.now ∧ s.dynMinLease = g.dynMinLease ∧
      (∀ d, (s.hosts d).cacheEntry = (g.hosts d).cacheEntry) ∧
      ∀ d, (s.hosts d).lastUse = if d ∈ l then g.now - g.dynMinLease else (g.hosts d).lastUse := by
  induction l generalizing g with
  | nil => exact ⟨SameMaps.refl g, rfl, rfl, rfl, fun _ => rfl, fun _ => (if_neg List.not_mem_nil).symm⟩
  | cons c l ih =>
    obtain ⟨hm, ha, hn, hmin, hc, hu⟩ := ih (g.setHost c { g.hosts c with lastUse := g.now - g.dynMinLease })
    have hs := SameMaps.setHost g c { g.hosts c with lastUse := g.now - g.dynMinLease } rfl rfl rfl
    refine ⟨hs.trans hm, ha, hn, hmin, fun d => (hc d).trans ?_, fun d => (hu d).trans ?_⟩
    · by_cases hd : d = c
      · subst hd
        simp [Gcfg.setHost]
      · simp [Gcfg.setHost, hd]
    · by_cases hd : d = c
      · subst hd
        simp [Gcfg.setHost]
      · simp [Gcfg.setHost, hd]

private theorem Unused.redate (h : Unused g) :
    Unused (g.dormant.foldl (fun s d => s.setHost d { s.hosts d with lastUse := s.now - s.dynMinLease }) g) := by
  have hb : ∀ l : List Nat,
      Base (l.foldl (fun s d => s.setHost d { s.hosts d with lastUse := s.now - s.dynMinLease }) g) := by
    intro l
    have hg := h.base
    clear h
    induction l generalizing g with
    | nil => exact hg
    | cons c l ih => exact ih (hg.setLastUse c _)
  obtain ⟨hm, ha, -, -, hc, hu⟩ := redate_spec g.dormant g
  refine ⟨⟨ha.trans h.active, fun d hd => ?_, ?_⟩, hb _, fun d hd => ?_, ?_, ?_⟩
  · rw [hm.dormant] at hd
    exact (hc d).trans (h.entry d hd)
  · rw [Sorted, hm.dormant]
    refine List.pairwise_of_forall_mem_list fun d hd e he => ?_
    rw [hu, hu, if_pos hd, if_pos he]
  · rw [hm.mapped] at hd
    exact (hc d).trans (h.unlinked d hd)
  · rw [hm.mapped, hm.map4List]
    exact h.listed
  · rw [hm.dormant, hm.map4List, hm.map4]
    exact h.clear

/-- The end of the load brings leases back into use. -/
theorem Unused.settleLeases (h : Unused g) : Unused (settleLeases g) := by
  unfold Tayga.settleLeases
  cases hp : g.dynamicPool with
  | none => exact h
  | some p =>
    dsimp only
    split
    · rw [← dormant_of_pool hp]
      exact h.redate
    · exact wakeLeases_induct (fun _ _ h hd => h.moveToMapped hd) h _

/-- Nothing in the IPv4 list stands in the way of a lease whose line was accepted. -/
private theorem Admissible.clear {p : DynamicPool} {r : DynamicSnapshot} (h : Base g) (hp : g.dynamicPool = some p)
    (ha : Admissible g p r) {m : MapRef} (hm : m ∈ g.map4List) (hlen : (g.map4 m).prefixLen = 32) :
    (g.map4 m).addr ≠ r.addr4 := by
  intro hv
  have hf := h.tables.list4.find_host hm hlen
  rw [hv] at hf
  have hf' := ha.find4
  rw [findMap4_eq] at hf'
  obtain rfl := Option.some.inj (hf.symm.trans hf')
  rw [Gcfg.map4, hp] at hv
  exact ha.ne_base hv.symm

/-- Without leases there is nothing to note. -/
private theorem Unused.of_no_lease (h : Base g) (hl : g.leases = []) (ha : g.cacheActive = []) : Unused g := by
  obtain ⟨hm, hd⟩ := List.append_eq_nil_iff.1 hl
  refine ⟨.of_no_lease ha hl, h, ?_, ?_, ?_⟩
  · rw [hm]
    exact nofun
  · rw [hm]
    exact nofun
  · rw [hd]
    exact nofun

private theorem unused_loadDynamic (h : Base g) (hl : g.leases = []) (ha : g.cacheActive = [])
    (file : Option (List Char)) (time : Int) : Unused (loadDynamic g libc file time) := by
  have hno := Unused.of_no_lease h hl ha
  unfold loadDynamic
  split
  · rename_i p content hp
    refine Unused.settleLeases ?_
    cases ho : g.oom with
    | true =>
      rw [loadRows_of_oom ho]
      exact .of_no_lease (h.tick time) hl ha
    | false =>
      obtain ⟨hm, hd⟩ := List.append_eq_nil_iff.1 hl
      have hload := loading_loadRows h hp hm hd ho (dynamicRows libc content)
      have hsleep := Asleep.loadRows (.of_no_lease ha hl) h (dynamicRows libc content)
      generalize loadRows g (dynamicRows libc content) = s at hload hsleep
      obtain ⟨q, hq, hmap⟩ := hload.same.pool_map4 hp
      refine ⟨⟨hsleep.active, hsleep.entry, hsleep.sorted⟩, hload.base.tick time, ?_, ?_, fun d hd m hm => ?_⟩
      · exact fun d hd => absurd (hload.mapped ▸ hd : d ∈ []) List.not_mem_nil
      · exact fun d hd => absurd (hload.mapped ▸ hd : d ∈ []) List.not_mem_nil
      · have hr := hload.rows.mem_iff.1 (List.mem_map_of_mem hd)
        have hadm := (hload.same.admissible h.tables hmap).2 (hload.admissible _ hr)
        have hok := hload.base.tables.host_ok d (Or.inr hd)
        have hc := Admissible.clear hload.base hq hadm hm
        refine Bool.eq_false_iff.2 fun hsame => ?_
        simp only [Map4.same, Bool.and_eq_true, decide_eq_true_eq] at hsame
        refine hc (hsame.1.trans ?_) (hsame.2)
        rw [Gcfg.map4, hok.map4]
  · exact hno

/-- The system when the workers start: the configuration is accepted and the map file read, then the leases are
loaded. -/
theorem timedInv_start {e : Endian} {now : Int} {content : List Char} {sd : Option (List Char)} {rand : Nat → BitVec 32}
    {g₀ : Gcfg} (hs : startup libc e now content sd rand = .ok g₀) {maps : Option MapFileRead}
    (hr : addrmapReload g₀ libc maps = (.ok (), g)) (fails : Bool) (file : Option (List Char)) (time : Int) :
    TimedInv (.start (loadDynamic { g with oom := fails } libc file time)) := by
  obtain ⟨hi, hl⟩ := booted hs hr
  have ha : g.cacheActive = [] := by
    have h₀ := cacheActive_startup hs
    rcases addrmapReload_eq g₀ libc maps with ⟨f, l, -, -, -, -, e⟩ | ⟨-, e⟩ | e
    · rw [e] at hr
      obtain rfl := (Prod.mk.inj hr).2
      exact cacheActive_flushCache _
    · rw [e] at hr
      obtain rfl := (Prod.mk.inj hr).2
      exact h₀
    · rw [e] at hr
      cases (Prod.mk.inj hr).1
  exact ⟨(unused_loadDynamic (hi.alloc fails).base hl ha file time).lifeInv, nofun⟩

/-! ### What a step does to the leases -/

/-- No lease in use is given up, and a dormant one that goes to another host is the last of its list. -/
structure Keeping (g g' : Gcfg) : Prop where
  mapped : ∀ d ∈ g.mapped, d ∈ g'.mapped ∧ g'.v4 d = g.v4 d ∧ g'.v6 d = g.v6 d
  dormant : ∀ d ∈ g.dormant, d ∈ g'.leases ∧ g'.v4 d = g.v4 d ∧ (g'.v6 d ≠ g.v6 d → g.dormant.getLast? = some d)

private theorem Keeping.of_same (hm : g'.mapped = g.mapped) (hd : g'.dormant = g.dormant) (h4 : ∀ d, g'.v4 d = g.v4 d)
    (h6 : ∀ d, g'.v6 d = g.v6 d) : Keeping g g' where
  mapped d hmem := by
    rw [hm]
    exact ⟨hmem, h4 d, h6 d⟩
  dormant d hmem := by
    rw [Gcfg.leases, hd]
    exact ⟨List.mem_append_right _ hmem, h4 d, fun hne => absurd (h6 d) hne⟩

theorem Keeping.of_sameMaps (h : SameMaps g g') : Keeping g g' := .of_same h.mapped h.dormant h.v4 h.v6

theorem Keeping.refl (g : Gcfg) : Keeping g g := .of_sameMaps (SameMaps.refl g)

private theorem Keeping.trans_sameMaps {g'' : Gcfg} (h : Keeping g g') (hs : SameMaps g' g'') : Keeping g g'' where
  mapped d hd := by
    rw [hs.mapped, hs.v4, hs.v6]
    exact h.mapped d hd
  dormant d hd := by
    rw [Gcfg.leases, hs.mapped, hs.dormant, hs.v4, hs.v6]
    exact h.dormant d hd

private theorem mapped_moveToMapped (h : Base g) (hd : d ∈ g.dormant) {e : Nat} (he : e ∈ g.mapped) :
    e ∈ (moveToMapped g d).mapped := by
  obtain ⟨l4, l6, heq, -⟩ := moveToMapped_spec h hd
  obtain ⟨p, hp⟩ := exists_pool (.inr hd)
  have hne : e ≠ d := by
    rintro rfl
    exact h.not_dormant he hd
  rw [mapped_of_pool hp] at he
  rw [heq]
  simp [Gcfg.mapped, hp, he, hne]

/-- Assignment gives a new lease, the host's own one, or the oldest dormant one. -/
private theorem Rise.keeping {x : In6} {g₁ : Gcfg} (hr : Rise g x d g₁) {seen : Nat → Option Int} (h : LifeInv g seen)
    (hv : validateIp6Addr x = none) : Keeping g (moveToMapped g₁ d) := by
  obtain ⟨hup, hsame, -⟩ := hr.upTo h hv
  have hs := SameLeases.moveToMapped hup.base hup.rising
  constructor
  · intro e he
    have hm : e ∈ g₁.mapped := by
      rw [hsame.mapped]
      exact he
    refine ⟨mapped_moveToMapped hup.base hup.rising hm, ?_, ?_⟩
    · rw [hs.v4, Gcfg.v4, hsame.host4 e he]
      rfl
    · rw [hs.v6, Gcfg.v6, hsame.host6 e he]
      rfl
  · intro e he
    rw [hs.leases.mem_iff, hs.v4, hs.v6]
    cases hr with
    | same hd hx => exact ⟨List.mem_append_right _ he, rfl, fun hne => absurd rfl hne⟩
    | @fresh p f a hp hf =>
      obtain ⟨v, hpool⟩ := dynamicPool_fresh (g := g) (p := p) (x := x) (a := a) (f := f)
      rw [dormant_of_pool hp] at he
      have hne : e ≠ g.nHosts := Nat.ne_of_lt ((h.base.runs p hp).lease_lt e (Or.inr he))
      refine ⟨List.mem_append_right _ ?_, v4_fresh_of_ne hne, fun h6 => absurd (v6_fresh_of_ne hne) h6⟩
      show e ∈ (Tayga.fresh g p x a f).dormant
      rw [dormant_of_pool hpool]
      exact List.mem_cons_of_mem _ he
    | reuse hl =>
      refine ⟨List.mem_append_right _ he, v4_readdress d e x, fun h6 => ?_⟩
      by_cases hed : e = d
      · rw [hed]
        exact hl
      · refine absurd ?_ h6
        have hh := hosts_readdress_of_ne (g := g) x hed
        show (readdress g d x).v6 e = g.v6 e
        simp only [Gcfg.v6, hh]

/-- The slow path of a lookup. -/
private theorem LifeInv.keeping_slow {seen : Nat → Option Int} (h : LifeInv g seen) {l : Lookup} (hl : l.Checked) :
    Keeping g (l.slow g) := by
  cases l with
  | four a =>
    show Keeping g (Tayga.slow4 g a).2
    unfold Tayga.slow4
    cases resolve4 g a with
    | error e => exact .refl g
    | ok f => exact .of_sameMaps (sameMaps_publish h.base.cache ..)
  | six x dyn =>
    show Keeping g (Tayga.slow6 g x dyn).2
    by_cases hx : findMap6 g x ≠ none ∨ dyn = false
    · rw [slow6_of_find hx]
      cases resolve6 g x with
      | error e => exact .refl g
      | ok f => exact .of_sameMaps (sameMaps_publish h.base.cache ..)
    · rw [not_or, not_not, Bool.not_eq_false] at hx
      obtain ⟨hx, rfl⟩ := hx
      rcases assignDynamic_rise h.base x with ⟨e, -⟩ | ⟨d, g₁, e, hr⟩
      · rw [slow6_of_no_assign hx e]
        exact .refl g
      · rw [slow6_of_assign hx e]
        have hb := (hr.upTo h (hl rfl)).1
        exact (hr.keeping h (hl rfl)).trans_sameMaps (sameMaps_publish (hb.base.moveToMapped hb.rising).cache ..)

/-- What a pass of `dynamic_maint` does to the leases. -/
structure Passed (g g' : Gcfg) : Prop where
  now : g'.now = g.now
  minLease : g'.dynMinLease = g.dynMinLease
  maxLease : g'.dynMaxLease = g.dynMaxLease
  v4 : ∀ d, g'.v4 d = g.v4 d
  v6 : ∀ d, g'.v6 d = g.v6 d
  cacheEntry : ∀ d, (g'.hosts d).cacheEntry = (g.hosts d).cacheEntry
  lastUse : ∀ d, (g'.hosts d).lastUse = (g.hosts d).lastUse
  mapped : ∀ d ∈ g.mapped, d ∈ g'.mapped ∨ (g.hosts d).cacheEntry = none ∧ (g.hosts d).lastUse + g.dynMinLease < g.now
  leases : ∀ d ∈ g.leases, d ∈ g'.leases ∨ (g.hosts d).lastUse + g.dynMaxLease < g.now

theorem Passed.moveToDormant (h : Passed g s) (hd : d ∈ s.mapped) (hc : (s.hosts d).cacheEntry = none)
    (hl : (s.hosts d).lastUse + s.dynMinLease < s.now) : Passed g (moveToDormant s d) := by
  obtain ⟨p, hp⟩ := exists_pool (.inl hd)
  refine ⟨h.now, h.minLease, h.maxLease, h.v4, h.v6, h.cacheEntry, h.lastUse, fun e he => ?_, fun e he => ?_⟩
  · by_cases hed : e = d
    · subst hed
      rw [h.cacheEntry] at hc
      rw [h.lastUse, h.minLease, h.now] at hl
      exact Or.inr ⟨hc, hl⟩
    · exact (h.mapped e he).imp_left fun hm => mem_mapped_of_moveToDormant hm hed
  · refine (h.leases e he).imp_left fun hm => ?_
    rw [Gcfg.leases, List.mem_append, mem_mapped_moveToDormant hp, mem_dormant_moveToDormant hp]
    by_cases hed : e = d
    · exact Or.inr (Or.inl hed)
    · exact (List.mem_append.1 hm).imp (fun hm => ⟨hm, hed⟩) Or.inr

theorem Passed.expireLease (h : Passed g s) {p : DynamicPool} (hp : s.dynamicPool = some p)
    (hl : (s.hosts d).lastUse + s.dynMaxLease < s.now) : Passed g (expireLease s p d) := by
  cases hr : prevRun (FreeRef.host d) p.freeList with
  | none =>
    have e : Tayga.expireLease s p d = s := by
      unfold Tayga.expireLease
      rw [hr]
    rw [e]
    exact h
  | some f =>
    rw [expireLease_eq hr]
    obtain ⟨v, hv⟩ := dynamicPool_joined (g := s) (p := p) (d := d) (f := f)
    have hm := sameMapped_joined (g := s) (p := p) (d := d) (f := f) hp
    have htime : (joined s p d f).now = s.now ∧ (joined s p d f).dynMinLease = s.dynMinLease ∧
        (joined s p d f).dynMaxLease = s.dynMaxLease := by
      cases f <;> exact ⟨rfl, rfl, rfl⟩
    have hhost := hosts_joined (g := s) (p := p) (d := d) (f := f)
    refine ⟨htime.1.trans h.now, htime.2.1.trans h.minLease, htime.2.2.trans h.maxLease, fun e => ?_, fun e => ?_,
      fun e => (hhost e).2.2.trans (h.cacheEntry e), fun e => (lastUse_joined e).trans (h.lastUse e), fun e he => ?_,
      fun e he => ?_⟩
    · rw [← h.v4]
      simp only [Gcfg.v4, hhost]
    · rw [← h.v6]
      simp only [Gcfg.v6, hhost]
    · rw [hm.mapped]
      exact h.mapped e he
    · by_cases hed : e = d
      · subst hed
        rw [h.lastUse, h.maxLease, h.now] at hl
        exact Or.inr hl
      · refine (h.leases e he).imp_left fun hs => ?_
        rw [Gcfg.leases, hm.mapped, dormant_of_pool hv]
        rw [Gcfg.leases, dormant_of_pool hp] at hs
        exact List.mem_append.2 ((List.mem_append.1 hs).imp_right fun hs => List.mem_filter.2 ⟨hs, decide_eq_true hed⟩)

private theorem passed_dynamicMaint (h : Base g) (shutdown : Bool) : Passed g (dynamicMaint g shutdown).1 := by
  refine dynamicMaint_induct (P := Passed g) (fun _ _ h hd hc hl => h.moveToDormant hd hc hl)
    (fun _ _ _ h hp _ hl => h.expireLease hp hl) (fun s b h => ?_) (fun p hp => (h.runs p hp).nodup_mapped) ?_ shutdown
  · exact ⟨h.now, h.minLease, h.maxLease, h.v4, h.v6, h.cacheEntry, h.lastUse, h.mapped, h.leases⟩
  · exact ⟨rfl, rfl, rfl, fun _ => rfl, fun _ => rfl, fun _ => rfl, fun _ => rfl, fun _ => Or.inl, fun _ => Or.inl⟩

/-! ### Runs -/

/-- A step is a pass of `dynamic_maint`, or it keeps the leases. -/
theorem TimedInv.step_cases {s : Timed} (h : TimedInv s) (libc : Libc) (e : Event) :
    Keeping s.sys.map (Tayga.step libc s.sys e).map ∨ Passed s.sys.map (Tayga.step libc s.sys e).map := by
  have hb := h.life.base
  refine step_map_induct (P := fun g => Keeping s.sys.map g ∨ Passed s.sys.map g) (.inl (.refl _)) (fun c => ?_)
    (fun w l _ hp => ?_) ?_ (fun b => .inr (passed_dynamicMaint hb b)) (fun t b => ?_) (fun file => ?_) (fun t => ?_)
    fun b => ?_
  · exact .inl (.of_sameMaps (sameMaps_touch c))
  · exact .inl (h.life.keeping_slow (h.checked w l hp))
  · refine .inl (.of_sameMaps (addrmapMaint_induct (P := SameMaps s.sys.map) (fun s c hs _ => ?_)
      hb.cache.nodup_active (SameMaps.refl _)))
    exact hs.trans (sameMaps_releaseEntry s c)
  · refine .inl ?_
    cases b <;> exact .of_same rfl rfl (fun _ => rfl) fun _ => rfl
  · have hp : (addrmapReload s.sys.map libc file).2.dynamicPool = s.sys.map.dynamicPool :=
      dynamicPool_addrmapReload hb file
    have hk : KeepsBooks s.sys.map (addrmapReload s.sys.map libc file).2 := .addrmapReload hb file
    refine .inl (.of_same ?_ ?_ hk.v4 hk.v6)
    · simp only [Gcfg.mapped, hp]
    · simp only [Gcfg.dormant, hp]
  · exact .inl (.of_same rfl rfl (fun _ => rfl) fun _ => rfl)
  · exact .inl (.of_same rfl rfl (fun _ => rfl) fun _ => rfl)

/-- A lease in use stays with its host while packets match it. -/
theorem TimedInv.kept {s : Timed} (h : TimedInv s) (e : Event) {d : Nat} (hd : d ∈ s.sys.map.mapped) {t : Int}
    (ht : t ∈ s.seen d) (hl : s.sys.map.now - t ≤ s.sys.map.dynMinLease) :
    d ∈ (Tayga.step libc s.sys e).map.mapped ∧ (Tayga.step libc s.sys e).map.v4 d = s.sys.map.v4 d ∧
      (Tayga.step libc s.sys e).map.v6 d = s.sys.map.v6 d := by
  rcases h.step_cases libc e with hk | hp
  · exact hk.mapped d hd
  · refine ⟨(hp.mapped d hd).resolve_right fun hidle => ?_, hp.v4 d, hp.v6 d⟩
    have hle := (h.life.mapped d hd).unlinked hidle.1 t ht
    have hlt := hidle.2
    omega

/-- A lease is freed when it has been idle for long enough. -/
private theorem TimedInv.freed {s : Timed} (h : TimedInv s) (e : Event) {d : Nat} (hd : d ∈ s.sys.map.leases)
    (hf : d ∉ (Tayga.step libc s.sys e).map.leases) :
    s.sys.map.dynMaxLease < s.sys.map.now - (s.sys.map.hosts d).lastUse ∧
      ∀ t ∈ s.seen d, s.sys.map.dynMaxLease < s.sys.map.now - t := by
  rcases h.step_cases libc e with hk | hp
  · refine absurd ?_ hf
    rcases List.mem_append.1 hd with hd | hd
    · exact List.mem_append_left _ (hk.mapped d hd).1
    · exact (hk.dormant d hd).1
  · have hlt := (hp.leases d hd).resolve_left hf
    have hle : ∀ t ∈ s.seen d, t ≤ (s.sys.map.hosts d).lastUse := by
      rcases List.mem_append.1 hd with hd | hd
      · have hidle := (hp.mapped d hd).resolve_left fun hm => hf (List.mem_append_left _ hm)
        exact (h.life.mapped d hd).unlinked hidle.1
      · exact (h.life.dormant d hd).used
    refine ⟨by omega, fun t ht => ?_⟩
    have := hle t ht
    omega

/-- The lease that goes to another host is the oldest one. -/
theorem TimedInv.oldest {s : Timed} (h : TimedInv s) (e : Event) {d : Nat} (hd : d ∈ s.sys.map.dormant)
    (hv : (Tayga.step libc s.sys e).map.v6 d ≠ s.sys.map.v6 d) {c : Nat} (hc : c ∈ s.sys.map.dormant) :
    (s.sys.map.hosts d).lastUse ≤ (s.sys.map.hosts c).lastUse := by
  rcases h.step_cases libc e with hk | hp
  · obtain ⟨k, hk⟩ := List.getLast?_eq_some_iff.1 ((hk.dormant d hd).2.2 hv)
    have hsort := h.life.sorted
    rw [Sorted, hk] at hsort
    rw [hk] at hc
    rcases List.mem_append.1 hc with hc | hc
    · exact (List.pairwise_append.1 hsort).2.2 c hc d (List.mem_singleton_self d)
    · obtain rfl := List.mem_singleton.1 hc
      exact Int.le_refl _
  · exact absurd (hp.v6 d) hv

/-- **A lease lives as long as it is used.**  In every run of lookups, maintenance and reloads from every startup, the
dormant leases are in the order of their last use, and whatever happens next: a lease in use that a packet matched at
most `dyn_min_lease` seconds ago stays in use with both its addresses; a lease that is freed has been idle for more than
`dyn_max_lease` seconds; and a dormant lease that goes to another host is the oldest one. -/
theorem lease_lifetime_run {e : Endian} {now : Int} {content : List Char} {sd : Option (List Char)}
    {rand : Nat → BitVec 32} {g₀ : Gcfg} (hs : startup libc e now content sd rand = .ok g₀) {maps : Option MapFileRead}
    (hr : addrmapReload g₀ libc maps = (.ok (), g)) (fails : Bool) (file : Option (List Char)) (time : Int)
    (es : List Event) :
    let s := Run.run (timedStep libc) (.start (loadDynamic { g with oom := fails } libc file time)) es
    let m := s.sys.map
    Sorted m ∧ ∀ e : Event,
      let m' := (timedStep libc s e).sys.map
      (∀ d ∈ m.mapped, ∀ t ∈ s.seen d, m.now - t ≤ m.dynMinLease →
        d ∈ m'.mapped ∧ m'.v4 d = m.v4 d ∧ m'.v6 d = m.v6 d) ∧
      (∀ d ∈ m.leases, d ∉ m'.leases →
        m.dynMaxLease < m.now - (m.hosts d).lastUse ∧ ∀ t ∈ s.seen d, m.dynMaxLease < m.now - t) ∧
      ∀ d ∈ m.dormant, m'.v6 d ≠ m.v6 d → ∀ e ∈ m.dormant, (m.hosts d).lastUse ≤ (m.hosts e).lastUse := by
  intro s m
  have h : TimedInv s := (timedInv_start hs hr fails file time).run es
  exact ⟨h.life.sorted, fun e => ⟨fun d hd t ht => h.kept e hd ht, fun d hd => h.freed e hd,
    fun d hd hv c hc => h.oldest e hd hv hc⟩⟩

/-- A host sends, and sends again much later, when the cache still has its pair. -/
def sampleUse : List Event :=
  [.look 0 (.six sampleHost true), .finish 0, .tick 3000000, .look 0 (.six sampleHost true)]

/-- The second packet was seen in the cache only, and the lease stays. -/
theorem lease_lifetime_run_sample : ∃ g, sampleData = .ok g ∧
    let s := Run.run (timedStep sampleLibc) (.start (loadDynamic { g with oom := false } sampleLibc none 1000000))
      sampleUse
    (s.sys.map.hosts 0).lastUse + s.sys.map.dynMaxLease < s.sys.map.now ∧
      0 ∈ (timedStep sampleLibc s (.dynamicMaint true)).sys.map.mapped := by
  obtain ⟨g, hs, hm, hmem, hseen, hidle⟩ := start_any (r := sampleData) (p := fun g => g.mapFile = [] ∧
    let s := Run.run (timedStep sampleLibc) (.start (loadDynamic { g with oom := false } sampleLibc none 1000000))
      sampleUse
    0 ∈ s.sys.map.mapped ∧ (s.seen 0 = some 3000000 ∧ s.sys.map.now - 3000000 ≤ s.sys.map.dynMinLease) ∧
      (s.sys.map.hosts 0).lastUse + s.sys.map.dynMaxLease < s.sys.map.now) (by decide +kernel)
  have hload : addrmapReload g sampleLibc none = (.ok (), g) := by
    unfold addrmapReload
    rw [if_pos hm]
  obtain ⟨-, hstep⟩ := lease_lifetime_run hs hload false none 1000000 sampleUse
  exact ⟨g, hs, hidle, ((hstep (.dynamicMaint true)).1 0 hmem 3000000 hseen.1 hseen.2).1⟩

end Tayga
