import Mathlib.Data.Int.Order.Basic
import Tayga.Lifetimes

/-!
# The time of the last packet is not lost

What the operations do to the times of the leases.  A hit refreshes the entry of the lease (`LifeInv.touch`), the slow
path the lease and its entry (`LifeBut.publish`), the release of an entry hands its time over (`LifeInv.releaseEntry`),
and a lease that becomes dormant takes its place among the dormant ones (`LifeInv.moveToDormant`).
-/

namespace Tayga

open FirstMatch

variable {g g' : Gcfg} {seen : Nat → Option Int} {d : Nat}

/-! ### Answered packets -/

private theorem stamp_of_not_mapped (hd : d ∉ g.mapped) (pair : In4 × In6) : stamp seen g pair d = seen d :=
  if_neg fun h => hd h.1

/-- Two leases with one IPv4 address are one. -/
theorem Base.v4_inj (h : Base g) {e : Nat} (hd : d ∈ g.leases) (he : e ∈ g.leases) (hv : g.v4 d = g.v4 e) : d = e := by
  cases hp : g.dynamicPool with
  | none => simp [Gcfg.leases, Gcfg.mapped, Gcfg.dormant, hp] at hd
  | some p =>
    rw [Gcfg.leases, mapped_of_pool hp, dormant_of_pool hp, List.mem_append] at hd he
    exact (h.runs p hp).v4_inj hd he hv

/-- The time of a lease that an entry with other addresses does not concern. -/
theorem Tracked.insert {c : Nat} {t : Option Int} (h : Tracked g t d) (hd : g'.hosts d = g.hosts d)
    (ho : ∀ b ∈ g'.cacheActive, b ≠ c → b ∈ g.cacheActive ∧ g'.entries b = g.entries b)
    (hl : (g'.entries c).addr4 = g.v4 d → (g'.entries c).addr6 ≠ g.v6 d)
    (hf : (g'.entries c).repAgeout = true → (g'.entries c).addr4 = g.v4 d → (g.hosts d).cacheEntry ≠ some c) :
    Tracked g' t d := by
  have h4 : g'.v4 d = g.v4 d := by simp only [Gcfg.v4, hd]
  have h6 : g'.v6 d = g.v6 d := by simp only [Gcfg.v6, hd]
  constructor
  · rw [hd]
    exact h.unlinked
  · intro b hb e4 e6
    rw [h4] at e4
    rw [h6] at e6
    by_cases hbc : b = c
    · subst hbc
      exact absurd e6 (hl e4)
    · obtain ⟨ha, he⟩ := ho b hb hbc
      rw [hd, he]
      rw [he] at e4 e6
      exact h.linked b ha e4 e6
  · intro b hb hce hfl e4
    rw [h4] at e4
    rw [hd] at hce
    rw [h6]
    by_cases hbc : b = c
    · subst hbc
      exact absurd hce (hf hfl e4)
    · obtain ⟨ha, he⟩ := ho b hb hbc
      rw [he] at hfl e4 ⊢
      exact h.flagged b ha hce hfl e4

/-! ### A cache hit -/

private theorem entries_touch_of_ne {c b : Nat} (h : b ≠ c) :
    (touch g c).entries b = g.entries b := Function.update_of_ne h _ _

private theorem entries_touch_self (c : Nat) : (touch g c).entries c = { g.entries c with lastUse := g.now } :=
  Function.update_self _ _ _

/-- A hit is a packet of the lease the entry is of, if there is one. -/
theorem LifeInv.touch (h : LifeInv g seen) {c : Nat} (hc : c ∈ g.cacheActive) :
    LifeInv (touch g c) (stamp seen (touch g c) ((g.entries c).addr4, (g.entries c).addr6)) where
  base := h.base.touch c
  listed := h.listed
  mapped d hd := by
    have ht := h.mapped d hd
    by_cases hpair : g.v4 d = (g.entries c).addr4 ∧ g.v6 d = (g.entries c).addr6
    · -- the lease of the entry: the entry has the time now
      obtain ⟨hce, -⟩ := ht.linked c hc hpair.1.symm hpair.2.symm
      have hst : stamp seen (Tayga.touch g c) ((g.entries c).addr4, (g.entries c).addr6) d = some g.now :=
        if_pos ⟨hd, hpair⟩
      rw [hst]
      constructor
      · intro hn
        have hn' : (g.hosts d).cacheEntry = none := hn
        rw [hce] at hn'
        cases hn'
      · intro b hb e4 e6
        have hbc : b = c := by
          refine h.base.cache.unique b hb c hc ?_ ?_
          · rw [← (samePairs_touch c).addr4 b, e4]
            exact hpair.1
          · rw [← (samePairs_touch c).addr6 b, e6]
            exact hpair.2
        subst hbc
        refine ⟨hce, fun t ht => ?_⟩
        rw [entries_touch_self]
        exact Int.le_of_eq (Option.some.inj ht).symm
      · intro b hb hce' _ _
        have hbc : b = c := Option.some.inj (hce'.symm.trans hce)
        subst hbc
        rw [entries_touch_self]
        exact hpair.2.symm
    · have hst : stamp seen (Tayga.touch g c) ((g.entries c).addr4, (g.entries c).addr6) d = seen d :=
        if_neg fun hs => hpair hs.2
      rw [hst]
      refine ht.insert (c := c) rfl (fun b hb hbc => ⟨hb, entries_touch_of_ne hbc⟩) ?_ ?_
      · rw [entries_touch_self]
        exact fun e4 e6 => hpair ⟨e4.symm, e6.symm⟩
      · rw [entries_touch_self]
        exact fun hf e4 hce => hpair ⟨e4.symm, (ht.flagged c hc hce hf e4).symm⟩
  dormant d hd := by
    rw [stamp_of_not_mapped (g := Tayga.touch g c) fun hm => h.base.not_dormant hm hd]
    exact (h.dormant d hd).congr rfl rfl
  sorted := h.sorted

/-! ### The slow path -/

/-- The invariant, but for the time of the lease `d` in use. -/
structure LifeBut (g : Gcfg) (seen : Nat → Option Int) (d : Nat) : Prop where
  base : Base g
  listed : ∀ d ∈ g.mapped, .host d ∈ g.map4List ∨ .host d ∈ g.map6List
  mapped : ∀ e ∈ g.mapped, e ≠ d → Tracked g (seen e) e
  dormant : ∀ d ∈ g.dormant, Resting g (seen d) d
  sorted : Sorted g

theorem LifeInv.but (h : LifeInv g seen) (d : Nat) : LifeBut g seen d :=
  ⟨h.base, h.listed, fun e he _ => h.mapped e he, h.dormant, h.sorted⟩

/-- The invariant in a state with the same maps and leases. -/
theorem LifeBut.frame (h : LifeBut g seen d) (hs : SameMaps g g') (hb : Base g') {seen' : Nat → Option Int}
    (hm : ∀ e ∈ g.mapped, Tracked g' (seen' e) e)
    (hd : ∀ e ∈ g.dormant, g'.hosts e = g.hosts e ∧ seen' e = seen e) : LifeInv g' seen' where
  base := hb
  listed := by
    rw [hs.mapped, hs.map4List, hs.map6List]
    exact h.listed
  mapped := by
    rw [hs.mapped]
    exact hm
  dormant e he := by
    rw [hs.dormant] at he
    obtain ⟨hh, hse⟩ := hd e he
    rw [hse]
    exact (h.dormant e he).congr (by rw [hh]) (by rw [hh])
  sorted := by
    unfold Sorted
    rw [hs.dormant]
    refine h.sorted.imp_of_mem fun ha hb hab => ?_
    rw [(hd _ ha).1, (hd _ hb).1]
    exact hab

/-- What publishing a pair without a lease does. -/
private theorem publish_none_cases (hc : CacheInv g) (a : In4) (x : In6) (cp : Bool) : publish g a x none cp = g ∨
    (∃ c ∈ g.cacheActive, (g.entries c).addr4 = a ∧ (g.entries c).addr6 = x ∧ publish g a x none cp = touch g c) ∨
    ∃ c pool, g.cachePool = c :: pool ∧
      publish g a x none cp = fillEntry g c pool a x (hashIp4 g a) (hashIp6 g x) := by
  by_cases hf : g.cacheSize ≠ 0 ∧ cp = true
  · have hp : publish g a x none cp = (cacheInsert g a x (hashIp4 g a) (hashIp6 g x)).2 := if_pos hf
    rw [hp]
    rcases cacheInsert_cases hc a x with ⟨c, hca, h4, h6, e⟩ | ⟨-, -, e⟩ | ⟨-, c, pool, hp, e⟩ <;> rw [e]
    · exact .inr (.inl ⟨c, hca, h4, h6, rfl⟩)
    · exact .inl rfl
    · exact .inr (.inr ⟨c, pool, hp, rfl⟩)
  · exact .inl (if_neg hf)

/-- A pair that no lease in use has is no packet of a lease. -/
theorem LifeInv.publishNone (h : LifeInv g seen) {a : In4} {x : In6}
    (hno : ∀ d ∈ g.mapped, ¬ (g.v4 d = a ∧ g.v6 d = x)) (cp : Bool) :
    LifeInv (publish g a x none cp) (stamp seen (publish g a x none cp) (a, x)) := by
  have hs := sameMaps_publish h.base.cache a x none cp
  have hb := h.base.publish a x none cp
  have hstamp : stamp seen (publish g a x none cp) (a, x) = seen := by
    refine funext fun d => if_neg fun hd => ?_
    rw [hs.mapped, hs.v4, hs.v6] at hd
    exact hno d hd.1 hd.2
  rw [hstamp]
  rcases publish_none_cases h.base.cache a x cp with e | ⟨c, hca, h4, h6, e⟩ | ⟨c, pool, hp, e⟩ <;>
    rw [e] at hs hb ⊢
  · exact h
  · refine (h.but 0).frame hs hb (fun d hd => ?_) fun d _ => ⟨rfl, rfl⟩
    have ht := h.mapped d hd
    refine ht.insert (c := c) rfl (fun b hb hbc => ⟨hb, entries_touch_of_ne hbc⟩) ?_ ?_ <;> rw [entries_touch_self]
    · exact fun e4 e6 => hno d hd ⟨e4.symm.trans h4, e6.symm.trans h6⟩
    · exact fun hf e4 hce => hno d hd ⟨e4.symm.trans h4, (ht.flagged c hca hce hf e4).symm.trans h6⟩
  · have hself : (fillEntry g c pool a x (hashIp4 g a) (hashIp6 g x)).entries c = ⟨x, a, g.now, false, 1⟩ := by
      rw [entries_fillEntry, Function.update_self]
    refine (h.but 0).frame hs hb (fun d hd => ?_) fun d _ => ⟨rfl, rfl⟩
    refine (h.mapped d hd).insert (c := c) rfl (fun b hb hbc => ?_) ?_ ?_
    · refine ⟨(List.mem_cons.1 hb).resolve_left hbc, ?_⟩
      rw [entries_fillEntry, Function.update_of_ne hbc]
    · rw [hself]
      exact fun e4 e6 => hno d hd ⟨e4.symm, e6.symm⟩
    · rw [hself]
      exact nofun

/-- The packet of the lease `d`, when a state has the lease's time and the other leases as they were. -/
private theorem LifeBut.stamped (h : LifeBut g seen d) (hd : d ∈ g.mapped) (hs : SameMaps g g') (hb : Base g')
    (hother : ∀ e, e ≠ d → g'.hosts e = g.hosts e) (ht : Tracked g' (some g'.now) d)
    (hrest : ∀ e ∈ g.mapped, e ≠ d → Tracked g' (seen e) e) : LifeInv g' (stamp seen g' (g.v4 d, g.v6 d)) := by
  have hne : ∀ e ∈ g.leases, e ≠ d → stamp seen g' (g.v4 d, g.v6 d) e = seen e := by
    refine fun e he hed => if_neg fun hst => hed ?_
    rw [hs.mapped, hs.v4] at hst
    exact h.base.v4_inj he (List.mem_append_left _ hd) hst.2.1
  refine h.frame hs hb (fun e he => ?_) fun e he => ?_
  · by_cases hed : e = d
    · subst hed
      have hst : stamp seen g' (g.v4 e, g.v6 e) e = some g'.now := by
        refine if_pos ⟨?_, hs.v4 e, hs.v6 e⟩
        rw [hs.mapped]
        exact hd
      rw [hst]
      exact ht
    · rw [hne e (List.mem_append_left _ he) hed]
      exact hrest e he hed
  · have hed : e ≠ d := by
      rintro rfl
      exact h.base.not_dormant hd he
    exact ⟨hother e hed, hne e (List.mem_append_right _ he) hed⟩

/-- The lease has the time, and so has its entry. -/
private theorem LifeBut.filed (h : LifeBut g seen d) (hd : d ∈ g.mapped) (hs : SameMaps g g') (hb : Base g') {c : Nat}
    (hother : ∀ e, e ≠ d → g'.hosts e = g.hosts e) (hlink : (g'.hosts d).cacheEntry = some c)
    (hent : ∀ b ∈ g'.cacheActive, b ≠ c → b ∈ g.cacheActive ∧ g'.entries b = g.entries b) (hc : c ∈ g'.cacheActive)
    (h4 : (g'.entries c).addr4 = g.v4 d) (h6 : (g'.entries c).addr6 = g.v6 d) (hu : (g'.entries c).lastUse = g'.now) :
    LifeInv g' (stamp seen g' (g.v4 d, g.v6 d)) := by
  refine h.stamped hd hs hb hother ?_ fun e he hed => ?_
  · constructor
    · intro hn
      rw [hlink] at hn
      cases hn
    · intro b hba e4 e6
      rw [hs.v4] at e4
      rw [hs.v6] at e6
      obtain rfl := hb.cache.unique b hba c hc (e4.trans h4.symm) (e6.trans h6.symm)
      refine ⟨hlink, fun t ht => ?_⟩
      rw [hu]
      exact Int.le_of_eq (Option.some.inj ht).symm
    · intro b _ hce _ _
      obtain rfl := Option.some.inj (hlink.symm.trans hce)
      rw [hs.v6]
      exact h6
  · have hv : g.v4 d ≠ g.v4 e := fun hv =>
      hed (h.base.v4_inj (List.mem_append_left _ he) (List.mem_append_left _ hd) hv.symm)
    refine (h.mapped e he hed).insert (hother e hed) hent ?_ ?_
    · rw [h4]
      exact fun hv' => absurd hv' hv
    · rw [h4]
      exact fun _ hv' => absurd hv' hv

/-- The lease has the time, and no entry has its addresses. -/
private theorem LifeBut.unfiled (h : LifeBut g seen d) (hd : d ∈ g.mapped) (hs : SameMaps g g') (hb : Base g')
    (hother : ∀ e, e ≠ d → g'.hosts e = g.hosts e) (hu : (g'.hosts d).lastUse = g'.now)
    (he : g'.entries = g.entries) (ha : g'.cacheActive = g.cacheActive) (hno : ¬ Cached g (g.v4 d) (g.v6 d))
    (hlink : (g'.hosts d).cacheEntry = none ∨ g.cacheActive = []) :
    LifeInv g' (stamp seen g' (g.v4 d, g.v6 d)) := by
  refine h.stamped hd hs hb hother ?_ fun e he' hed => ?_
  · constructor
    · intro _ t ht
      rw [hu]
      exact Int.le_of_eq (Option.some.inj ht).symm
    · intro b hb e4 e6
      rw [ha] at hb
      rw [he, hs.v4] at e4
      rw [he, hs.v6] at e6
      exact absurd ⟨b, hb, e4, e6⟩ hno
    · intro b hb hce
      rcases hlink with hn | hn
      · rw [hn] at hce
        cases hce
      · rw [ha, hn] at hb
        cases hb
  · have hh := hother e hed
    refine (h.mapped e he' hed).congr (hs.v4 e) (hs.v6 e) (by rw [hh]) (by rw [hh]) he ha

/-- What publishing the pair of a lease does. -/
private theorem publish_lease_cases (hc : CacheInv g) (a : In4) (x : In6) (d : Nat) :
    let g₁ := g.setHost d { g.hosts d with lastUse := g.now }
    (g.cacheActive = [] ∧ publish g a x (some d) true = g₁) ∨
    (∃ c ∈ g.cacheActive, (g.entries c).addr4 = a ∧ (g.entries c).addr6 = x ∧
      publish g a x (some d) true = pointLease (touch g₁ c) (some d) (some c)) ∨
    (¬ Cached g a x ∧ publish g a x (some d) true = pointLease g₁ (some d) none) ∨
    ∃ c pool, g.cachePool = c :: pool ∧
      publish g a x (some d) true =
        pointLease (fillEntry g₁ c pool a x (hashIp4 g a) (hashIp6 g x)) (some d) (some c) := by
  intro g₁
  by_cases h0 : g.cacheSize = 0
  · refine .inl ⟨(hc.size h0).2, if_neg ?_⟩
    exact fun hn => hn.1 h0
  · right
    have hc₁ : CacheInv g₁ := (samePairs_useLease (some d)).cacheInv (sameMaps_useLease (some d)) hc
    have hp : publish g a x (some d) true = pointLease (cacheInsert g₁ a x (hashIp4 g₁ a) (hashIp6 g₁ x)).2 (some d)
        (cacheInsert g₁ a x (hashIp4 g₁ a) (hashIp6 g₁ x)).1 := if_pos ⟨h0, rfl⟩
    rw [hp]
    rcases cacheInsert_cases hc₁ a x with ⟨c, hca, h4, h6, e⟩ | ⟨hno, -, e⟩ | ⟨-, c, pool, hpool, e⟩ <;> rw [e]
    · exact .inl ⟨c, hca, h4, h6, rfl⟩
    · exact .inr (.inl ⟨hno, rfl⟩)
    · exact .inr (.inr ⟨c, pool, hpool, rfl⟩)

/-- The slow path of a lease in use notes its packet, whatever its time was. -/
theorem LifeBut.publish (h : LifeBut g seen d) (hd : d ∈ g.mapped) :
    LifeInv (publish g (g.v4 d) (g.v6 d) (some d) true)
      (stamp seen (publish g (g.v4 d) (g.v6 d) (some d) true) (g.v4 d, g.v6 d)) := by
  have hs := sameMaps_publish h.base.cache (g.v4 d) (g.v6 d) (some d) true
  have hb := h.base.publish (g.v4 d) (g.v6 d) (some d) true
  rcases publish_lease_cases h.base.cache (g.v4 d) (g.v6 d) d with
    ⟨hnil, e⟩ | ⟨c, hca, h4, h6, e⟩ | ⟨hno, e⟩ | ⟨c, pool, hp, e⟩ <;> rw [e] at hs hb ⊢
  · refine h.unfiled hd hs hb (fun e he => Function.update_of_ne he _ _) ?_ rfl rfl ?_ (.inr hnil)
    · simp [Gcfg.setHost]
    · rintro ⟨c, hc, -⟩
      rw [hnil] at hc
      cases hc
  · refine h.filed (c := c) hd hs hb (fun e he => ?_) ?_ (fun b hb' hbc => ⟨hb', ?_⟩) hca ?_ ?_ ?_
    · simp [pointLease, Gcfg.setHost, Gcfg.setEntry, touch, he]
    · rw [cacheEntry_pointLease, if_pos rfl]
    · simp [pointLease, Gcfg.setHost, Gcfg.setEntry, touch, hbc]
    · simp [pointLease, Gcfg.setHost, Gcfg.setEntry, touch, h4]
    · simp [pointLease, Gcfg.setHost, Gcfg.setEntry, touch, h6]
    · simp [pointLease, Gcfg.setHost, Gcfg.setEntry, touch]
  · refine h.unfiled hd hs hb (fun e he => ?_) ?_ rfl rfl hno (.inl ?_)
    · simp [pointLease, Gcfg.setHost, he]
    · simp [pointLease, Gcfg.setHost]
    · rw [cacheEntry_pointLease, if_pos rfl]
  · refine h.filed (c := c) hd hs hb (fun e he => ?_) ?_ (fun b hb' hbc => ⟨?_, ?_⟩) List.mem_cons_self ?_ ?_ ?_
    · simp [pointLease, Gcfg.setHost, Gcfg.setEntry, fillEntry, addToHashTable, he]
    · rw [cacheEntry_pointLease, if_pos rfl]
    · exact (List.mem_cons.1 hb').resolve_left hbc
    · simp [pointLease, Gcfg.setHost, Gcfg.setEntry, fillEntry, addToHashTable, hbc]
    · simp [pointLease, Gcfg.setHost, Gcfg.setEntry, fillEntry, addToHashTable]
    · simp [pointLease, Gcfg.setHost, Gcfg.setEntry, fillEntry, addToHashTable]
    · simp [pointLease, Gcfg.setHost, Gcfg.setEntry, fillEntry, addToHashTable]

/-! ### The release of an entry -/

/-- A released entry hands its time over, or the lease keeps its own. -/
theorem LifeInv.releaseEntry (h : LifeInv g seen) {c : Nat} (hc : c ∈ g.cacheActive) :
    LifeInv (releaseEntry g c) seen := by
  have hs := sameMaps_releaseEntry g c
  have hb := h.base.releaseEntry hc
  have he := entries_releaseEntry g c
  have ha : ∀ b, b ∈ (Tayga.releaseEntry g c).cacheActive ↔ b ∈ g.cacheActive ∧ b ≠ c := fun _ =>
      mem_active_releaseEntry
  have hh : (Tayga.releaseEntry g c).hosts = (reported g c).hosts := rfl
  generalize Tayga.releaseEntry g c = g' at hs hb he ha hh ⊢
  -- a lease whose record is not touched keeps its time
  have hold : ∀ d ∈ g.mapped, g'.hosts d = g.hosts d → Tracked g' (seen d) d := by
    intro d hd hhd
    have ht := h.mapped d hd
    constructor
    · rw [hhd]
      exact ht.unlinked
    · rw [hhd, he, hs.v4, hs.v6]
      exact fun b hb' => ht.linked b ((ha b).1 hb').1
    · rw [hhd, he, hs.v4, hs.v6]
      exact fun b hb' => ht.flagged b ((ha b).1 hb').1
  by_cases hflag : (g.entries c).repAgeout = true
  · have hr : reported g c = reportAgeout g c := if_pos hflag
    rcases reportAgeout_cases g c with e | ⟨d, hf, hce, e⟩ <;> rw [hr, e] at hh
    · exact (h.but 0).frame hs hb (fun d hd => hold d hd (by rw [hh])) fun d _ => ⟨by rw [hh], rfl⟩
    · -- the lease of the address takes the time of the entry
      obtain ⟨hmem, hcov⟩ := h.base.tables.mem4 hf
      have hd := h.base.tables.host4 d hmem
      have h4 : (g.entries c).addr4 = g.v4 d := by
        refine ((h.base.tables.list4.wf _ hmem).covers_host ?_).1 hcov
        rw [Gcfg.map4, (h.base.tables.host_ok d (Or.inl hd)).map4]
      have ht := h.mapped d hd
      have h6 := ht.flagged c hc hce hflag h4
      have hhd : (g'.hosts d).cacheEntry = none ∧ (g'.hosts d).lastUse = (g.entries c).lastUse := by
        rw [hh]
        simp [Gcfg.setHost]
      have hhe : ∀ e, e ≠ d → g'.hosts e = g.hosts e := by
        intro e hed
        rw [hh]
        exact Function.update_of_ne hed _ _
      refine (h.but 0).frame hs hb (fun e hem => ?_) fun e hem => ⟨hhe e ?_, rfl⟩
      · by_cases hed : e = d
        · subst hed
          constructor
          · intro _ t hst
            rw [hhd.2]
            exact (ht.linked c hc h4 h6).2 t hst
          · intro b hb' e4 e6
            obtain ⟨hba, hbc⟩ := (ha b).1 hb'
            rw [he, hs.v4] at e4
            rw [he, hs.v6] at e6
            exact absurd (h.base.cache.unique b hba c hc (e4.trans h4.symm) (e6.trans h6.symm)) hbc
          · intro b _ hn
            rw [hhd.1] at hn
            cases hn
        · exact hold e hem (hhe e hed)
      · rintro rfl
        exact h.base.not_dormant hd hem
  · have hr : reported g c = g := if_neg hflag
    rw [hr] at hh
    exact (h.but 0).frame hs hb (fun d hd => hold d hd (by rw [hh])) fun d _ => ⟨by rw [hh], rfl⟩

/-! ### Leases come and go -/

/-- A lease put in its place keeps the dormant list in order. -/
private theorem sorted_dormantInsert {l : List Nat}
    (hl : l.Pairwise fun d e => (g.hosts e).lastUse ≤ (g.hosts d).lastUse) :
    (dormantInsert g d l).Pairwise fun d e => (g.hosts e).lastUse ≤ (g.hosts d).lastUse := by
  unfold dormantInsert
  split
  · exact List.pairwise_singleton _ _
  · rename_i s hs
    split
    · rename_i hlast
      obtain ⟨k, rfl⟩ := List.getLast?_eq_some_iff.1 hs
      refine List.pairwise_append.2 ⟨hl, List.pairwise_singleton _ _, fun e he f hf => ?_⟩
      obtain rfl := List.mem_singleton.1 hf
      -- the last one is the oldest
      rcases List.mem_append.1 he with he | he
      · exact Int.le_trans hlast ((List.pairwise_append.1 hl).2.2 e he s (List.mem_singleton_self s))
      · obtain rfl := List.mem_singleton.1 he
        exact hlast
    · exact sorted_insertBefore (fun s => (g.hosts s).lastUse) d hl

theorem sorted_moveToDormant
    (h : (g.dormant.filter (· ≠ d)).Pairwise fun d e => (g.hosts e).lastUse ≤ (g.hosts d).lastUse) :
    Sorted (moveToDormant g d) := by
  unfold Sorted
  cases hp : g.dynamicPool with
  | none => simp [Gcfg.dormant, moveToDormant, delMap4, delMap6, hp]
  | some p =>
    have hlist : (moveToDormant g d).dormant = dormantInsert g d (p.dormantList.filter (· ≠ d)) := by
      simp only [Gcfg.dormant, moveToDormant, delMap4, delMap6, hp, Option.map_some]
      rfl
    rw [dormant_of_pool hp] at h
    rw [hlist]
    exact sorted_dormantInsert h

theorem LifeInv.moveToDormant (h : LifeInv g seen) (hd : d ∈ g.mapped) (hc : (g.hosts d).cacheEntry = none) :
    LifeInv (moveToDormant g d) seen := by
  obtain ⟨p, hp⟩ := exists_pool (.inl hd)
  refine ⟨h.base.moveToDormant (Or.inl hd), fun e he => ?_, fun e he => ?_, fun e he => ?_, ?_⟩
  · obtain ⟨hem, hed⟩ := (mem_mapped_moveToDormant hp).1 he
    have hne : MapRef.host e ≠ .host d := fun heq => hed (MapRef.host.inj heq)
    exact (h.listed e hem).imp (fun hl => mem4_moveToDormant.2 ⟨hl, hne⟩) fun hl => mem6_moveToDormant.2 ⟨hl, hne⟩
  · exact (h.mapped e ((mem_mapped_moveToDormant hp).1 he).1).congr rfl rfl rfl rfl rfl rfl
  · rcases (mem_dormant_moveToDormant hp).1 he with rfl | he
    · exact ⟨hc, (h.mapped e hd).unlinked hc⟩
    · exact (h.dormant e he).congr rfl rfl
  · exact sorted_moveToDormant (h.sorted.filter _)

theorem lastUse_joined {p : DynamicPool} {f : FreeRef} (e : Nat) :
    ((joined g p d f).hosts e).lastUse = (g.hosts e).lastUse :=
  (hosts_setFree (g := { g with dynamicPool := some { p with
    freeList := p.freeList.filter (· ≠ FreeRef.host d)
    dormantList := p.dormantList.filter (· ≠ d) } }) f _ e).2.2.2

theorem LifeInv.expireLease (h : LifeInv g seen) {p : DynamicPool} (hp : g.dynamicPool = some p)
    (hd : d ∈ p.dormantList) : LifeInv (expireLease g p d) seen := by
  have hb := h.base.expireLease hp hd
  cases hr : prevRun (FreeRef.host d) p.freeList with
  | none =>
    have e : Tayga.expireLease g p d = g := by
      unfold Tayga.expireLease
      rw [hr]
    rw [e]
    exact h
  | some f =>
    rw [expireLease_eq hr] at hb ⊢
    obtain ⟨v, hv⟩ := dynamicPool_joined (g := g) (p := p) (d := d) (f := f)
    have hm := sameMapped_joined (g := g) (p := p) (d := d) (f := f) hp
    have hu := lastUse_joined (g := g) (p := p) (d := d) (f := f)
    have hdor : (joined g p d f).dormant = p.dormantList.filter (· ≠ d) := dormant_of_pool hv
    refine ⟨hb, ?_, fun e he => ?_, fun e he => ?_, ?_⟩
    · rw [hm.mapped, hm.map4List, hm.map6List]
      exact h.listed
    · rw [hm.mapped] at he
      obtain ⟨h4, h6, hc⟩ := hosts_joined (g := g) (p := p) (d := d) (f := f) e
      refine (h.mapped e he).congr ?_ ?_ hc (hu e) hm.entries hm.cacheActive
      · simp only [Gcfg.v4, h4]
      · simp only [Gcfg.v6, h6]
    · rw [hdor] at he
      refine (h.dormant e ?_).congr (hosts_joined e).2.2 (hu e)
      rw [dormant_of_pool hp]
      exact List.mem_of_mem_filter he
    · unfold Sorted
      rw [hdor]
      simp only [hu]
      have hsort := h.sorted
      rw [Sorted, dormant_of_pool hp] at hsort
      exact hsort.filter _

/-- The invariant, but for the dormant lease `d` that is about to come back into use. -/
structure LifeUpTo (g : Gcfg) (seen : Nat → Option Int) (d : Nat) : Prop where
  base : Base g
  rising : d ∈ g.dormant
  listed : ∀ d ∈ g.mapped, .host d ∈ g.map4List ∨ .host d ∈ g.map6List
  mapped : ∀ e ∈ g.mapped, Tracked g (seen e) e
  dormant : ∀ e ∈ g.dormant, e ≠ d → Resting g (seen e) e
  sorted : (g.dormant.filter (· ≠ d)).Pairwise fun d e => (g.hosts e).lastUse ≤ (g.hosts d).lastUse

theorem LifeInv.upTo (h : LifeInv g seen) (hd : d ∈ g.dormant) : LifeUpTo g seen d :=
  ⟨h.base, hd, h.listed, h.mapped, fun e he _ => h.dormant e he, h.sorted.filter _⟩

/-- A dormant lease that comes back into use. -/
theorem LifeUpTo.moveToMapped (h : LifeUpTo g seen d)
    (hl : .host d ∈ (moveToMapped g d).map4List ∨ .host d ∈ (moveToMapped g d).map6List) :
    LifeBut (moveToMapped g d) seen d ∧ d ∈ (moveToMapped g d).mapped := by
  obtain ⟨p, hp⟩ := exists_pool (.inr h.rising)
  obtain ⟨l4, l6, e, -, -, hm4, hm6⟩ := moveToMapped_spec h.base h.rising
  have hb := h.base.moveToMapped h.rising
  rw [e] at hb hl ⊢
  simp only [hp, Option.map_some] at hb hl ⊢
  have hmem : ∀ e ∈ d :: p.mappedList.filter (· ≠ d), e ≠ d → e ∈ g.mapped := by
    intro e he hed
    rw [mapped_of_pool hp]
    exact List.mem_of_mem_filter ((List.mem_cons.1 he).resolve_left hed)
  refine ⟨⟨hb, fun e he => ?_, fun e he hed => ?_, fun e he => ?_, ?_⟩, List.mem_cons_self⟩
  · by_cases hed : e = d
    · subst hed
      exact hl
    · have hne : MapRef.host e ≠ .host d := fun heq => hed (MapRef.host.inj heq)
      exact (h.listed e (hmem e he hed)).imp (hm4 _ hne).2 (hm6 _ hne).2
  · exact (h.mapped e (hmem e he hed)).congr rfl rfl rfl rfl rfl rfl
  · obtain ⟨he, hed⟩ := List.mem_filter.1 he
    refine (h.dormant e ?_ (of_decide_eq_true hed)).congr rfl rfl
    rw [dormant_of_pool hp]
    exact he
  · have hsort := h.sorted
    rw [dormant_of_pool hp] at hsort
    exact hsort

/-! ### Assignment -/

theorem Rise.upTo {x : In6} {g₁ : Gcfg} (hr : Rise g x d g₁) (h : LifeInv g seen) (hv : validateIp6Addr x = none) :
    LifeUpTo g₁ seen d ∧ SameMapped g g₁ ∧ g₁.v6 d = x := by
  cases hr with
  | same hd hx => exact ⟨h.upTo hd, by constructor <;> intros <;> rfl, hx⟩
  | @fresh p f a hp hf =>
    have hm := sameMapped_fresh (x := x) (a := a) (f := f) h.base hp
    have hb := h.base.fresh hp hf hv
    obtain ⟨v, hpool⟩ := dynamicPool_fresh (g := g) (p := p) (x := x) (a := a) (f := f)
    have hdor := dormant_of_pool hpool
    have hlt : ∀ e ∈ g.leases, e ≠ g.nHosts := by
      intro e he
      rw [Gcfg.leases, mapped_of_pool hp, dormant_of_pool hp, List.mem_append] at he
      have := (h.base.runs p hp).lease_lt e he
      omega
    have hhost : ∀ e ∈ g.leases, ((Tayga.fresh g p x a f).hosts e).cacheEntry = (g.hosts e).cacheEntry ∧
        ((Tayga.fresh g p x a f).hosts e).lastUse = (g.hosts e).lastUse := fun e he =>
      (hosts_cut_of_ne (hlt e he) (BitVec.ofNat 32 a)).2.2
    have hfilter : (Tayga.fresh g p x a f).dormant.filter (· ≠ g.nHosts) = g.dormant := by
      rw [hdor, List.filter_cons_of_neg (by simp), dormant_of_pool hp, List.filter_eq_self]
      intro e he
      refine decide_eq_true (hlt e (List.mem_append_right _ ?_))
      rw [dormant_of_pool hp]
      exact he
    refine ⟨⟨hb.writePending true, ?_, ?_, fun e he => ?_, fun e he hed => ?_, ?_⟩, hm.writePending true, v6_fresh_self⟩
    · show g.nHosts ∈ (Tayga.fresh g p x a f).dormant
      rw [hdor]
      exact List.mem_cons_self
    · show ∀ e ∈ (Tayga.fresh g p x a f).mapped, .host e ∈ (Tayga.fresh g p x a f).map4List ∨
        .host e ∈ (Tayga.fresh g p x a f).map6List
      rw [hm.mapped, hm.map4List, hm.map6List]
      exact h.listed
    · have hem : e ∈ g.mapped := by
        rw [← hm.mapped]
        exact he
      obtain ⟨hc, hu⟩ := hhost e (List.mem_append_left _ hem)
      have hne := hlt e (List.mem_append_left _ hem)
      exact (h.mapped e hem).congr (v4_fresh_of_ne hne) (v6_fresh_of_ne hne) hc hu hm.entries hm.cacheActive
    · have hem : e ∈ g.dormant := by
        rw [← hfilter]
        exact List.mem_filter.2 ⟨he, decide_eq_true hed⟩
      obtain ⟨hc, hu⟩ := hhost e (List.mem_append_right _ hem)
      exact (h.dormant e hem).congr hc hu
    · show ((Tayga.fresh g p x a f).dormant.filter (· ≠ g.nHosts)).Pairwise fun d e =>
        ((Tayga.fresh g p x a f).hosts e).lastUse ≤ ((Tayga.fresh g p x a f).hosts d).lastUse
      rw [hfilter]
      refine h.sorted.imp_of_mem fun hd he hde => ?_
      rw [(hhost _ (List.mem_append_right _ hd)).2, (hhost _ (List.mem_append_right _ he)).2]
      exact hde
  | reuse hl =>
    have hd := List.mem_of_getLast? hl
    have hm := sameMapped_readdress h.base hd x
    have hhost : ∀ e, ((readdress g d x).hosts e).cacheEntry = (g.hosts e).cacheEntry ∧
        ((readdress g d x).hosts e).lastUse = (g.hosts e).lastUse := by
      intro e
      by_cases hed : e = d
      · subst hed
        rw [hosts_readdress_self]
        exact ⟨rfl, rfl⟩
      · rw [hosts_readdress_of_ne x hed]
        exact ⟨rfl, rfl⟩
    refine ⟨⟨(h.base.readdress hd hv).writePending true, hd, h.listed, fun e he => ?_, fun e he _ => ?_, ?_⟩,
      hm.writePending true, v6_readdress_self x⟩
    · have hed : e ≠ d := by
        rintro rfl
        exact h.base.not_dormant he hd
      have hh := hosts_readdress_of_ne (g := g) x hed
      refine (h.mapped e he).congr (v4_readdress d e x) ?_ (hhost e).1 (hhost e).2 rfl rfl
      simp only [Gcfg.v6, hh]
    · exact (h.dormant e he).congr (hhost e).1 (hhost e).2
    · simp only [hhost]
      exact h.sorted.filter _

end Tayga
