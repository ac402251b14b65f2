import Mathlib.Data.List.Nodup
import Mathlib.Logic.Relation
import Tayga.Lookups
import Tayga.Startup

/-!
# Runs of the cache

The cache under any mix of creation, insertion, hits, ageing passes and flushes.  Every entry is in the pool or active,
and the active ones are filed by their two addresses (`CacheOk`); each operation keeps this (`CacheOk.step`), so it
holds in every state after the first creation (`cache_run`).
-/

namespace Tayga

open Relation

variable {g g' : Gcfg}

/-- The entries are those of the pool and the active ones, and the active ones are filed once in each table. -/
structure CacheOk (g : Gcfg) : Prop where
  inv : CacheInv g
  all : (g.cachePool ++ g.cacheActive).Perm (List.range g.cacheSize)
  once4 : ∀ h, (g.hashTable4 h).Nodup
  once6 : ∀ h, (g.hashTable6 h).Nodup

/-- One use of the cache, or a change that leaves the cached pairs and the hash functions alone.  The tables may be
created again for other random numbers or another number of buckets. -/
inductive CacheStep : Gcfg → Gcfg → Prop
  | create {g g' : Gcfg} (rand : Nat → BitVec 32) (hashBits : Nat)
      (h : createCache { g with rand := rand, hashBits := hashBits } = .ok g') : CacheStep g g'
  | insert {g : Gcfg} (a : In4) (x : In6) : CacheStep g (cacheInsert g a x (hashIp4 g a) (hashIp6 g x)).2
  | hit4 {g g' : Gcfg} {a : In4} {x : In6} (h : probe4 g a = some (x, g')) : CacheStep g g'
  | hit6 {g g' : Gcfg} {a : In4} {x : In6} (h : probe6 g x = some (a, g')) : CacheStep g g'
  | maint {g : Gcfg} : CacheStep g (addrmapMaint g)
  | flush {g : Gcfg} : CacheStep g (flushCache g)
  | other {g g' : Gcfg} (h : SamePairs g g') (hsize : g'.cacheSize = g.cacheSize) (hendian : g'.endian = g.endian)
      (hrand : g'.rand = g.rand) (hbits : g'.hashBits = g.hashBits) : CacheStep g g'

/-! ### Changes outside the cache -/

private theorem CacheOk.samePairs (h : CacheOk g) (hp : SamePairs g g') (hsize : g'.cacheSize = g.cacheSize)
    (hendian : g'.endian = g.endian) (hrand : g'.rand = g.rand) (hbits : g'.hashBits = g.hashBits) : CacheOk g' where
  inv := by
    refine hp.cacheInv' hsize ?_ ?_ h.inv
    · intro a
      simp only [hashIp4, hendian, hrand, hbits]
    · intro x
      simp only [hashIp6, hendian, hrand, hbits]
  all := by
    rw [hp.cachePool, hp.cacheActive, hsize]
    exact h.all
  once4 b := by
    rw [hp.hashTable4]
    exact h.once4 b
  once6 b := by
    rw [hp.hashTable6]
    exact h.once6 b

theorem CacheOk.touch (h : CacheOk g) (c : Nat) : CacheOk (touch g c) :=
  h.samePairs (samePairs_touch c) rfl rfl rfl rfl

/-! ### Insertion -/

theorem CacheOk.fill (h : CacheOk g) {c : Nat} {pool : List Nat} {a : In4} {x : In6} (hp : g.cachePool = c :: pool)
    (hno : ¬Cached g a x) : CacheOk (fillEntry g c pool a x (hashIp4 g a) (hashIp6 g x)) where
  inv := h.inv.fill hp hno
  all := by
    have hall := h.all
    rw [hp] at hall
    exact (List.perm_middle).trans hall
  once4 b := by
    have hc : c ∉ g.hashTable4 (hashIp4 g a) := fun hm => h.inv.not_active hp ((h.inv.hash4 _ _).1 hm).1
    have ht : (fillEntry g c pool a x (hashIp4 g a) (hashIp6 g x)).hashTable4 =
        Function.update g.hashTable4 (hashIp4 g a) (c :: g.hashTable4 (hashIp4 g a)) := rfl
    rw [ht]
    by_cases hb : b = hashIp4 g a
    · subst hb
      rw [Function.update_self]
      exact List.nodup_cons.2 ⟨hc, h.once4 _⟩
    · rw [Function.update_of_ne hb]
      exact h.once4 b
  once6 b := by
    have hc : c ∉ g.hashTable6 (hashIp6 g x) := fun hm => h.inv.not_active hp ((h.inv.hash6 _ _).1 hm).1
    have ht : (fillEntry g c pool a x (hashIp4 g a) (hashIp6 g x)).hashTable6 =
        Function.update g.hashTable6 (hashIp6 g x) (c :: g.hashTable6 (hashIp6 g x)) := rfl
    rw [ht]
    by_cases hb : b = hashIp6 g x
    · subst hb
      rw [Function.update_self]
      exact List.nodup_cons.2 ⟨hc, h.once6 _⟩
    · rw [Function.update_of_ne hb]
      exact h.once6 b

theorem CacheOk.insert (h : CacheOk g) (a : In4) (x : In6) :
    CacheOk (cacheInsert g a x (hashIp4 g a) (hashIp6 g x)).2 := by
  rcases cacheInsert_cases h.inv a x with ⟨c, -, -, -, he⟩ | ⟨-, -, he⟩ | ⟨hno, c, pool, hp, he⟩ <;> rw [he]
  · exact h.touch c
  · exact h
  · exact h.fill hp hno

/-! ### Ageing and flush -/

theorem CacheOk.releaseEntry (h : CacheOk g) {c : Nat} (hc : c ∈ g.cacheActive) : CacheOk (releaseEntry g c) where
  inv := cacheInv_releaseEntry h.inv hc
  all := by
    have hpool : (Tayga.releaseEntry g c).cachePool = c :: g.cachePool := by
      rw [releaseEntry_eq, ← (samePairs_reported g c).cachePool]
      rfl
    have hperm : (c :: g.cacheActive.filter (· ≠ c)).Perm g.cacheActive := by
      have herase : g.cacheActive.erase c = g.cacheActive.filter (· ≠ c) := by
        rw [h.inv.nodup_active.erase_eq_filter]
        exact List.filter_congr fun b _ => by rw [Bool.eq_iff_iff]; simp
      rw [← herase]
      exact (List.perm_cons_erase hc).symm
    rw [hpool, cacheActive_releaseEntry, (sameMaps_releaseEntry g c).cacheSize]
    refine List.Perm.trans ?_ h.all
    exact (List.perm_middle.symm).trans (hperm.append_left _)
  once4 b := by
    have ht : (Tayga.releaseEntry g c).hashTable4 = fun b => (g.hashTable4 b).filter (· ≠ c) := by
      rw [releaseEntry_eq, ← (samePairs_reported g c).hashTable4]
      rfl
    rw [ht]
    exact (h.once4 b).filter _
  once6 b := by
    have ht : (Tayga.releaseEntry g c).hashTable6 = fun b => (g.hashTable6 b).filter (· ≠ c) := by
      rw [releaseEntry_eq, ← (samePairs_reported g c).hashTable6]
      rfl
    rw [ht]
    exact (h.once6 b).filter _

/-! ### Creation -/

/-- The loop of `create_cache` that files the active entries again. -/
private def refile (l : List Nat) (g : Gcfg) : Gcfg := l.foldl (fun s c =>
  addToHashTable s c (hashIp4 s (s.entries c).addr4) (hashIp6 s (s.entries c).addr6)) g

/-- A bucket that takes an entry in front. -/
private theorem bucket_cons (key : Nat → Nat) (table : Nat → List Nat) (c : Nat) (l : List Nat) (h : Nat) :
    (l.filter fun b => key b = h).reverse ++ Function.update table (key c) (c :: table (key c)) h =
      ((c :: l).filter fun b => key b = h).reverse ++ table h := by
  by_cases hc : key c = h
  · subst hc
    rw [Function.update_self, List.filter_cons_of_pos (by simp), List.reverse_cons, List.append_assoc]
    rfl
  · rw [Function.update_of_ne (Ne.symm hc), List.filter_cons_of_neg (by simpa using hc)]

private theorem refile_eq (l : List Nat) (g : Gcfg) : refile l g = { g with
    hashTable4 := fun h => (l.filter fun c => hashIp4 g (g.entries c).addr4 = h).reverse ++ g.hashTable4 h
    hashTable6 := fun h => (l.filter fun c => hashIp6 g (g.entries c).addr6 = h).reverse ++ g.hashTable6 h } := by
  induction l generalizing g with
  | nil => rfl
  | cons c l ih =>
    have h4 := funext (bucket_cons (fun b => hashIp4 g (g.entries b).addr4) g.hashTable4 c l)
    have h6 := funext (bucket_cons (fun b => hashIp6 g (g.entries b).addr6) g.hashTable6 c l)
    rw [← h4, ← h6]
    exact ih _

/-- Filing the active entries of empty tables. -/
private theorem CacheOk.refile (hn : (g.cachePool ++ g.cacheActive).Perm (List.range g.cacheSize))
    (hsize : g.cacheSize = 0 → g.cachePool = [] ∧ g.cacheActive = [])
    (hu : ∀ c ∈ g.cacheActive, ∀ c' ∈ g.cacheActive, (g.entries c).addr4 = (g.entries c').addr4 →
      (g.entries c).addr6 = (g.entries c').addr6 → c = c')
    (h4 : g.hashTable4 = fun _ => []) (h6 : g.hashTable6 = fun _ => []) : CacheOk (refile g.cacheActive g) := by
  have hnd : (g.cachePool ++ g.cacheActive).Nodup := hn.nodup_iff.2 List.nodup_range
  have hact : g.cacheActive.Nodup := (List.nodup_append.1 hnd).2.1
  rw [refile_eq]
  refine ⟨⟨hsize, hnd, ?_, ?_, hu⟩, hn, ?_, ?_⟩
  · intro b c
    simp only [h4, List.append_nil, List.mem_reverse, List.mem_filter, decide_eq_true_eq]
    rfl
  · intro b c
    simp only [h6, List.append_nil, List.mem_reverse, List.mem_filter, decide_eq_true_eq]
    rfl
  · intro b
    simp only [h4, List.append_nil]
    exact List.nodup_reverse.2 (hact.filter _)
  · intro b
    simp only [h6, List.append_nil]
    exact List.nodup_reverse.2 (hact.filter _)

/-- The first creation fills the pool, a later one files the active entries again. -/
private theorem cacheOk_createCache (hn : g.cachePool = [] ∧ g.cacheActive = [] ∨
      (g.cachePool ++ g.cacheActive).Perm (List.range g.cacheSize) ∧
      (g.cacheSize = 0 → g.cachePool = [] ∧ g.cacheActive = []) ∧
      ∀ c ∈ g.cacheActive, ∀ c' ∈ g.cacheActive, (g.entries c).addr4 = (g.entries c').addr4 →
        (g.entries c).addr6 = (g.entries c').addr6 → c = c')
    (h : createCache g = .ok g') : CacheOk g' := by
  unfold createCache at h
  split at h
  · cases h
  by_cases he : g.cachePool = [] ∧ g.cacheActive = []
  · rw [if_pos he] at h
    obtain rfl := Except.ok.inj h
    refine ⟨cacheInv_freshCache he.2, ?_, fun _ => List.nodup_nil, fun _ => List.nodup_nil⟩
    simp [he.2]
  · rw [if_neg he] at h
    obtain rfl := Except.ok.inj h
    obtain ⟨hall, hsize, hu⟩ := hn.resolve_left he
    exact CacheOk.refile (g := { g with
      hashTable4 := fun _ => []
      hashTable6 := fun _ => [] }) hall hsize hu rfl rfl

/-! ### Lookups -/

theorem CacheOk.find4 (h : CacheOk g) {a : In4} (ha : ∃ c ∈ g.cacheActive, (g.entries c).addr4 = a) :
    ∃ c ∈ g.cacheActive, (g.entries c).addr4 = a ∧ probe4 g a = some ((g.entries c).addr6, Tayga.touch g c) := by
  obtain ⟨c, hca, rfl⟩ := ha
  have h0 : g.cacheSize ≠ 0 := by
    intro h0
    rw [(h.inv.size h0).2] at hca
    cases hca
  cases hf : cached4 g (g.entries c).addr4 with
  | none => exact absurd rfl (h.inv.cached4_none.1 hf c hca)
  | some b =>
    obtain ⟨hb, hba⟩ := h.inv.cached4_some hf
    exact ⟨b, hb, hba, by rw [probe4, if_neg h0, hf]; rfl⟩

theorem CacheOk.find6 (h : CacheOk g) {x : In6} (hx : ∃ c ∈ g.cacheActive, (g.entries c).addr6 = x) :
    ∃ c ∈ g.cacheActive, (g.entries c).addr6 = x ∧ probe6 g x = some ((g.entries c).addr4, Tayga.touch g c) := by
  obtain ⟨c, hca, rfl⟩ := hx
  have h0 : g.cacheSize ≠ 0 := by
    intro h0
    rw [(h.inv.size h0).2] at hca
    cases hca
  cases hf : cached6 g (g.entries c).addr6 with
  | none => exact absurd rfl (h.inv.cached6_none.1 hf c hca)
  | some b =>
    obtain ⟨hb, hbx⟩ := h.inv.cached6_some hf
    exact ⟨b, hb, hbx, by rw [probe6, if_neg h0, hf]; rfl⟩

/-! ### Runs -/

theorem CacheOk.step (h : CacheOk g) (hs : CacheStep g g') : CacheOk g' := by
  cases hs with
  | create rand hashBits hc =>
    refine cacheOk_createCache ?_ hc
    exact .inr ⟨h.all, h.inv.size, h.inv.unique⟩
  | insert a x => exact h.insert a x
  | hit4 hp =>
    obtain ⟨-, c, -, -, rfl⟩ := probe4_eq_some.1 hp
    exact h.touch c
  | hit6 hp =>
    obtain ⟨-, c, -, -, rfl⟩ := probe6_eq_some.1 hp
    exact h.touch c
  | maint => exact addrmapMaint_induct (fun _ _ h hc => h.releaseEntry hc) h.inv.nodup_active h
  | flush => exact flushCache_induct (fun _ _ h hc => h.releaseEntry hc) h.inv.nodup_active h
  | other hp hsize hendian hrand hbits => exact h.samePairs hp hsize hendian hrand hbits

/-- In every state after the first creation of the cache: every entry is in the pool or active, and not both; an active
entry is in the one bucket of each of its addresses, a pooled one in none; no pair is held twice; and a lookup by either
address finds an active entry whenever there is one. -/
theorem cache_run {g₀ g₁ : Gcfg} (hp : g₀.cachePool = []) (ha : g₀.cacheActive = [])
    (hc : createCache g₀ = .ok g₁) (hr : ReflTransGen CacheStep g₁ g) :
    (g.cachePool ++ g.cacheActive).Perm (List.range g.cacheSize) ∧
    (∀ c ∈ g.cacheActive, (∀ h, c ∈ g.hashTable4 h ↔ h = hashIp4 g (g.entries c).addr4) ∧
      ∀ h, c ∈ g.hashTable6 h ↔ h = hashIp6 g (g.entries c).addr6) ∧
    (∀ h, (g.hashTable4 h).Nodup ∧ (g.hashTable6 h).Nodup) ∧
    (∀ c ∈ g.cachePool, ∀ h, c ∉ g.hashTable4 h ∧ c ∉ g.hashTable6 h) ∧
    (∀ c ∈ g.cacheActive, ∀ c' ∈ g.cacheActive, (g.entries c).addr4 = (g.entries c').addr4 →
      (g.entries c).addr6 = (g.entries c').addr6 → c = c') ∧
    (∀ a, (∃ c ∈ g.cacheActive, (g.entries c).addr4 = a) →
      ∃ c ∈ g.cacheActive, (g.entries c).addr4 = a ∧ probe4 g a = some ((g.entries c).addr6, touch g c)) ∧
    ∀ x, (∃ c ∈ g.cacheActive, (g.entries c).addr6 = x) →
      ∃ c ∈ g.cacheActive, (g.entries c).addr6 = x ∧ probe6 g x = some ((g.entries c).addr4, touch g c) := by
  have h : CacheOk g := by
    induction hr with
    | refl => exact cacheOk_createCache (.inl ⟨hp, ha⟩) hc
    | tail _ hs ih => exact ih.step hs
  refine ⟨h.all, ?_, fun b => ⟨h.once4 b, h.once6 b⟩, ?_, h.inv.unique, fun a => h.find4, fun x => h.find6⟩
  · intro c hca
    refine ⟨fun b => ?_, fun b => ?_⟩
    · rw [h.inv.hash4]
      exact ⟨fun e => e.2.symm, fun e => ⟨hca, e.symm⟩⟩
    · rw [h.inv.hash6]
      exact ⟨fun e => e.2.symm, fun e => ⟨hca, e.symm⟩⟩
  · intro c hcp b
    have hna : c ∉ g.cacheActive := fun hca => (List.nodup_append.1 h.inv.nodup).2.2 c hcp c hca rfl
    exact ⟨fun hm => hna ((h.inv.hash4 b c).1 hm).1, fun hm => hna ((h.inv.hash6 b c).1 hm).1⟩

/-- A cache of four entries. -/
private def fourEntries : Gcfg := { configInit .little 0 with cacheSize := 4 }

/-- A pair goes in, under the hashes of its addresses. -/
private def insertPair (g : Gcfg) (a : In4) (x : In6) : Gcfg := (cacheInsert g a x (hashIp4 g a) (hashIp6 g x)).2

private def freshPairs : Gcfg := insertPair (insertPair (freshCache fourEntries) 1 2) 3 4

/-- Three minutes later. -/
private def twoPairs : Gcfg := { freshPairs with now := 180 }

/-- One pair is used, an ageing pass takes the other, and a third one goes in. -/
private def agedPairs : Gcfg := insertPair (addrmapMaint (touch twoPairs 1)) 5 6

theorem cache_run_aged : (∃ c ∈ agedPairs.cacheActive, (agedPairs.entries c).addr4 = 3 ∧
    probe4 agedPairs 3 = some ((agedPairs.entries c).addr6, touch agedPairs c)) ∧
    (∃ c ∈ agedPairs.cacheActive, (agedPairs.entries c).addr6 = 6 ∧
    probe6 agedPairs 6 = some ((agedPairs.entries c).addr4, touch agedPairs c)) ∧
    ∀ c ∈ agedPairs.cacheActive, (agedPairs.entries c).addr4 ≠ 1 := by
  have hcache : createCache fourEntries = .ok (freshCache fourEntries) := rfl
  have hhit : probe4 twoPairs 3 = some (4, touch twoPairs 1) := rfl
  have htwo : ReflTransGen CacheStep (freshCache fourEntries) freshPairs :=
    .tail (.single (.insert 1 2)) (.insert 3 4)
  have hlater : CacheStep freshPairs twoPairs :=
    .other ⟨rfl, rfl, rfl, rfl, fun _ => rfl, fun _ => rfl⟩ rfl rfl rfl rfl
  have hrun : ReflTransGen CacheStep (freshCache fourEntries) agedPairs :=
    (((htwo.tail hlater).tail (.hit4 hhit)).tail .maint).tail (.insert 5 6)
  obtain ⟨-, -, -, -, -, h4, h6⟩ := cache_run rfl rfl hcache hrun
  exact ⟨h4 3 ⟨1, by decide +kernel, by decide +kernel⟩, h6 6 ⟨0, by decide +kernel, by decide +kernel⟩,
    by decide +kernel⟩

end Tayga
