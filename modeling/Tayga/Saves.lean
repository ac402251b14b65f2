import Tayga.LoadLaw

/-!
# No lease is lost from the map file

The mapper together with the map file and the write that the main thread is in.  `dynamic_maint` takes its snapshot
under the map mutex, writes it to disk without one and notes the outcome under the mutex again; workers assign leases
between any two of these steps.  Every lease is in the file, or in the snapshot being written, or the write of the next
pass is pending (`saves_run`).
-/

namespace Tayga

variable {g g' : Gcfg} {libc : Libc}

/-! ### The system with the file -/

/-- The mapper, the rows of the last file written, the rows of the write under way, and the outcome of that write once
the disk is done with it. -/
structure Saving where
  sys : System
  file : List DynamicSnapshot
  snapshot : List DynamicSnapshot
  disk : Option Bool

/-- A step of the mapper, or the end of `write_to_file`, which may have failed. -/
inductive SaveEvent where
  | event (e : Event)
  | disk (failed : Bool)

/-- What an event does.  The pass that began a write ends it after the disk has. -/
def saveStep (libc : Libc) (s : Saving) : SaveEvent → Saving
  | .event (.dynamicMaint shutdown) =>
    if s.sys.writing.isSome then s
    else { s with
      sys := step libc s.sys (.dynamicMaint shutdown)
      snapshot := ((dynamicMaint s.sys.map shutdown).2.map Prod.fst).getD []
      disk := none }
  | .event (.written failed) =>
    if s.disk = some failed then { s with
      sys := step libc s.sys (.written failed)
      disk := none }
    else s
  | .event e => { s with sys := step libc s.sys e }
  | .disk failed =>
    -- a write that fails leaves the old file in its place
    if s.sys.writing.isSome ∧ s.disk = none then { s with
      disk := some failed
      file := if failed then s.file else s.snapshot }
    else s

/-- The system when the workers start. -/
def Saving.start (g : Gcfg) (file : List DynamicSnapshot) : Saving := ⟨.start g, file, [], none⟩

/-- A row names both addresses of the lease. -/
def Listed (rows : List DynamicSnapshot) (g : Gcfg) (d : Nat) : Prop :=
  ∃ r ∈ rows, r.addr4 = g.v4 d ∧ r.addr6 = g.v6 d

/-! ### What the operations leave alone -/

/-- No lease is gained, the addresses are what they were, and so is the bookkeeping of map writes. -/
structure KeepsBooks (g g' : Gcfg) : Prop where
  leases : ∀ d ∈ g'.leases, d ∈ g.leases
  v4 : ∀ d, g'.v4 d = g.v4 d
  v6 : ∀ d, g'.v6 d = g.v6 d
  dataDir : g'.dataDir = g.dataDir
  pending : g'.mapWritePending = g.mapWritePending

namespace KeepsBooks

theorem refl (g : Gcfg) : KeepsBooks g g := ⟨fun _ h => h, fun _ => rfl, fun _ => rfl, rfl, rfl⟩

theorem trans {g'' : Gcfg} (h : KeepsBooks g g') (h' : KeepsBooks g' g'') : KeepsBooks g g'' where
  leases d hd := h.leases d (h'.leases d hd)
  v4 d := (h'.v4 d).trans (h.v4 d)
  v6 d := (h'.v6 d).trans (h.v6 d)
  dataDir := h'.dataDir.trans h.dataDir
  pending := h'.pending.trans h.pending

theorem listed {rows : List DynamicSnapshot} (h : KeepsBooks g g') {d : Nat} :
    Listed rows g' d ↔ Listed rows g d := by
  unfold Listed
  rw [h.v4, h.v6]

theorem of_sameMaps (h : SameMaps g g') (hd : g'.dataDir = g.dataDir) (hp : g'.mapWritePending = g.mapWritePending) :
    KeepsBooks g g' where
  leases d hd := by
    rw [Gcfg.leases, h.mapped, h.dormant] at hd
    exact hd
  v4 := h.v4
  v6 := h.v6
  dataDir := hd
  pending := hp

theorem touch (g : Gcfg) (c : Nat) : KeepsBooks g (touch g c) := of_sameMaps (sameMaps_touch c) rfl rfl

theorem releaseEntry (g : Gcfg) (c : Nat) : KeepsBooks g (releaseEntry g c) := by
  refine of_sameMaps (sameMaps_releaseEntry g c) ?_ ?_ <;> rw [releaseEntry_eq] <;>
    rcases reported_cases g c with e | ⟨d, -, -, e⟩ <;> rw [e] <;> rfl

/-- Filing a pair and noting the use of a lease. -/
theorem publish (hc : CacheInv g) (a : In4) (x : In6) (l : Option Nat) (cp : Bool) :
    KeepsBooks g (publish g a x l cp) := by
  have key : (Tayga.publish g a x l cp).dataDir = g.dataDir ∧
      (Tayga.publish g a x l cp).mapWritePending = g.mapWritePending := by
    have huse : (useLease g l).dataDir = g.dataDir ∧ (useLease g l).mapWritePending = g.mapWritePending := by
      cases l <;> exact ⟨rfl, rfl⟩
    unfold Tayga.publish
    dsimp only
    generalize useLease g l = g₁ at huse ⊢
    rw [← huse.1, ← huse.2]
    split
    · have hins : ∀ h4 h6, (cacheInsert g₁ a x h4 h6).2.dataDir = g₁.dataDir ∧
          (cacheInsert g₁ a x h4 h6).2.mapWritePending = g₁.mapWritePending := by
        intro h4 h6
        unfold cacheInsert
        split
        · exact ⟨rfl, rfl⟩
        · split <;> exact ⟨rfl, rfl⟩
      have hpoint : ∀ g₂ r, (pointLease g₂ l r).dataDir = g₂.dataDir ∧
          (pointLease g₂ l r).mapWritePending = g₂.mapWritePending := by
        intro g₂ r
        cases l <;> cases r <;> exact ⟨rfl, rfl⟩
      unfold filePair
      exact ⟨(hpoint _ _).1.trans (hins _ _).1, (hpoint _ _).2.trans (hins _ _).2⟩
    · exact ⟨rfl, rfl⟩
  exact of_sameMaps (sameMaps_publish hc a x l cp) key.1 key.2

theorem moveToMapped (h : Base g) {d : Nat} (hd : d ∈ g.dormant) : KeepsBooks g (moveToMapped g d) := by
  have hs := SameLeases.moveToMapped h hd
  obtain ⟨l4, l6, e, -⟩ := moveToMapped_spec h hd
  refine ⟨fun e he => hs.leases.mem_iff.1 he, hs.v4, hs.v6, ?_, ?_⟩ <;> rw [e]

theorem moveToDormant {d : Nat} (hd : d ∈ g.mapped) : KeepsBooks g (moveToDormant g d) where
  leases e he := by
    obtain ⟨p, hp⟩ := exists_pool (.inl hd)
    rw [Gcfg.leases, List.mem_append, mem_mapped_moveToDormant hp, mem_dormant_moveToDormant hp] at he
    rw [Gcfg.leases, List.mem_append]
    rcases he with he | rfl | he
    · exact .inl he.1
    · exact .inl hd
    · exact .inr he
  v4 _ := rfl
  v6 _ := rfl
  dataDir := rfl
  pending := rfl

theorem expireLease {p : DynamicPool} (hp : g.dynamicPool = some p) (d : Nat) : KeepsBooks g (expireLease g p d) := by
  cases hr : prevRun (FreeRef.host d) p.freeList with
  | none =>
    have e : Tayga.expireLease g p d = g := by
      unfold Tayga.expireLease
      rw [hr]
    rw [e]
    exact refl g
  | some f =>
    rw [expireLease_eq hr]
    obtain ⟨v, hv⟩ := dynamicPool_joined (g := g) (p := p) (d := d) (f := f)
    refine ⟨fun e he => ?_, fun e => ?_, fun e => ?_, ?_, ?_⟩
    · rw [Gcfg.leases, mapped_of_pool hv, dormant_of_pool hv] at he
      rw [Gcfg.leases, mapped_of_pool hp, dormant_of_pool hp]
      rcases List.mem_append.1 he with he | he
      · exact List.mem_append_left _ he
      · exact List.mem_append_right _ (List.mem_of_mem_filter he)
    · simp only [Gcfg.v4, (hosts_joined e).1]
    · simp only [Gcfg.v6, (hosts_joined e).2.1]
    · cases f <;> rfl
    · cases f <;> rfl

theorem relist (g : Gcfg) (l4 l6 : List MapRef) (st : Nat → MapStatic) (n : Nat) : KeepsBooks g (relist g l4 l6 st n) :=
  ⟨fun _ h => h, fun _ => rfl, fun _ => rfl, rfl, rfl⟩

/-- A reload replaces static entries. -/
theorem addrmapReload (h : Base g) (file : Option MapFileRead) : KeepsBooks g (addrmapReload g libc file).2 := by
  rcases addrmapReload_eq g libc file with ⟨f, l, -, hl, -, -, e⟩ | ⟨-, e⟩ | e <;> rw [e]
  · refine (publishMaps_induct (P := fun s => Base s ∧ KeepsBooks g s) (fun _ h => h.1) ?_ ?_ ?_
      (staged_parseMapFile hl) ⟨h, refl g⟩).2
    · intro s hs
      refine ⟨hs.1.dropFileMaps, hs.2.trans ?_⟩
      rw [dropFileMaps_eq hs.1.tables]
      exact relist s _ _ _ _
    · intro s m hs hm
      refine ⟨hs.1.withStatic hm, hs.2.trans ?_⟩
      rw [withStatic_eq_relist]
      exact relist s _ _ _ _
    · exact fun s c hs hc => ⟨hs.1.releaseEntry hc, hs.2.trans (releaseEntry s c)⟩
  · exact refl g
  · exact refl g

end KeepsBooks

/-! ### Assignments -/

/-- The books are kept, or a write is pending. -/
def Booked (g g' : Gcfg) : Prop := g'.dataDir = g.dataDir ∧ (g'.mapWritePending = true ∨ KeepsBooks g g')

private theorem KeepsBooks.booked (h : KeepsBooks g g') : Booked g g' := ⟨h.dataDir, .inr h⟩

theorem Booked.trans {g'' : Gcfg} (h : Booked g g') (h' : KeepsBooks g' g'') : Booked g g'' :=
  ⟨h'.dataDir.trans h.1, h.2.imp h'.pending.trans fun hk => hk.trans h'⟩

/-- Linking a lease leaves the bookkeeping alone. -/
private theorem books_moveToMapped (g : Gcfg) (d : Nat) : (moveToMapped g d).dataDir = g.dataDir ∧
    (moveToMapped g d).mapWritePending = g.mapWritePending := by
  have h4 : (tryInsertMap4 g (.host d)).dataDir = g.dataDir ∧
      (tryInsertMap4 g (.host d)).mapWritePending = g.mapWritePending := by
    unfold tryInsertMap4 insertMap4
    cases g.map4List.find? fun s => (g.map4 s).same (g.map4 (.host d)) <;> exact ⟨rfl, rfl⟩
  have h6 : ∀ s : Gcfg, (tryInsertMap6 s (.host d)).dataDir = s.dataDir ∧
      (tryInsertMap6 s (.host d)).mapWritePending = s.mapWritePending := by
    intro s
    unfold tryInsertMap6 insertMap6
    cases s.map6List.find? fun m => (s.map6 m).clash (s.map6 (.host d)) <;> exact ⟨rfl, rfl⟩
  exact ⟨(h6 _).1.trans h4.1, (h6 _).2.trans h4.2⟩

/-- A lease that `assign_dynamic` makes or gives to another host is one for the next write. -/
private theorem booked_assignDynamic (h : Base g) (x : In6) : Booked g (assignDynamic g x).2 := by
  rcases assignDynamic_rise h x with ⟨e, -⟩ | ⟨d, g₁, e, hr⟩
  · rw [e]
    exact (KeepsBooks.refl g).booked
  · rw [e]
    have hb := books_moveToMapped g₁ d
    cases hr with
    | same hd => exact (KeepsBooks.moveToMapped h hd).booked
    | @fresh p f a =>
      refine ⟨hb.1.trans ?_, .inl hb.2⟩
      cases f <;> rfl
    | reuse => exact ⟨hb.1, .inl hb.2⟩

/-- The slow path of a lookup. -/
private theorem booked_slow (h : Base g) {l : Lookup} (hl : l.Checked) : Booked g (l.slow g) := by
  cases l with
  | four a =>
    show Booked g (slow4 g a).2
    unfold slow4
    cases resolve4 g a with
    | error e => exact (KeepsBooks.refl g).booked
    | ok f => exact (KeepsBooks.publish h.cache ..).booked
  | six x dyn =>
    show Booked g (slow6 g x dyn).2
    obtain ⟨s, hs, hend⟩ := slow6_state g x dyn
    have hbook : Base s ∧ Booked g s := by
      rcases hs with rfl | ⟨rfl, rfl⟩
      · exact ⟨h, (KeepsBooks.refl s).booked⟩
      · exact ⟨h.assignDynamic (hl rfl), booked_assignDynamic h x⟩
    rcases hend with e | ⟨f, e⟩ <;> rw [e]
    · exact hbook.2
    · exact hbook.2.trans (KeepsBooks.publish hbook.1.cache ..)

/-! ### Maintenance -/

/-- A pass that takes a snapshot takes every lease that is left; one that does not leaves a pending write pending. -/
private theorem dynamicMaint_books (h : Base g) (shutdown : Bool) :
    let r := dynamicMaint g shutdown
    (∀ d ∈ r.1.leases, d ∈ g.leases ∧ r.1.v4 d = g.v4 d ∧ r.1.v6 d = g.v6 d) ∧
    r.1.dataDir = g.dataDir ∧
    (r.2 = none → r.1.mapWritePending = true ∨ r.1.mapWritePending = g.mapWritePending) ∧
    ∀ rows t, r.2 = some (rows, t) → ∀ d ∈ r.1.leases, Listed rows r.1 d := by
  unfold dynamicMaint
  cases hp : g.dynamicPool with
  | none => exact ⟨fun d hd => ⟨hd, rfl, rfl⟩, rfl, fun _ => .inr rfl, nofun⟩
  | some p =>
    have hk : KeepsBooks g (expireLeases (p.mappedList.length + p.dormantList.length) (idleLeases g p)) := by
      refine expireLeases_induct (P := KeepsBooks g) (fun s q d hs hq _ _ => hs.trans (KeepsBooks.expireLease hq d))
          ?_ _
      exact idleLeases_induct (P := KeepsBooks g) (fun s d hs hd _ _ => hs.trans (KeepsBooks.moveToDormant hd)) hp
        (h.runs p hp).nodup_mapped (KeepsBooks.refl g)
    dsimp only
    generalize expireLeases (p.mappedList.length + p.dormantList.length) (idleLeases g p) = s at hk
    have hold : ∀ d ∈ s.leases, d ∈ g.leases ∧ s.v4 d = g.v4 d ∧ s.v6 d = g.v6 d :=
      fun d hd => ⟨hk.leases d hd, hk.v4 d, hk.v6 d⟩
    split
    · exact ⟨hold, hk.dataDir, fun _ => .inr hk.pending, nofun⟩
    rename_i q hq
    split
    · split
      · exact ⟨hold, hk.dataDir, fun _ => .inl rfl, nofun⟩
      · refine ⟨hold, hk.dataDir, nofun, ?_⟩
        rintro rows t he d hd
        obtain ⟨rfl, -⟩ := Prod.mk.inj (Option.some.inj he)
        have hd' : d ∈ q.mappedList ++ q.dormantList := by
          rw [← mapped_of_pool hq, ← dormant_of_pool hq]
          exact hd
        exact ⟨_, List.mem_map_of_mem hd', rfl, rfl⟩
    · exact ⟨hold, hk.dataDir, fun _ => .inr hk.pending, nofun⟩

/-- A pass with a pending write takes a snapshot, if it has the memory. -/
private theorem dynamicMaint_writes (h : Base g) {d : Nat} (hd : d ∈ g.leases) (hdir : g.dataDir ≠ [])
    (hw : g.mapWritePending = true) (ho : g.oom = false) (shutdown : Bool) :
    (dynamicMaint g shutdown).2.isSome := by
  unfold dynamicMaint
  cases hp : g.dynamicPool with
  | none => simp [Gcfg.leases, Gcfg.mapped, Gcfg.dormant, hp] at hd
  | some p =>
    have hk : ∀ s, s = expireLeases (p.mappedList.length + p.dormantList.length) (idleLeases g p) →
        KeepsBooks g s ∧ s.oom = g.oom ∧ s.dynamicPool.isSome := by
      rintro s rfl
      refine expireLeases_induct (P := fun s => KeepsBooks g s ∧ s.oom = g.oom ∧ s.dynamicPool.isSome) ?_ ?_ _
      · intro s q d hs hq _ _
        refine ⟨hs.1.trans (KeepsBooks.expireLease hq d), ?_⟩
        unfold expireLease
        split
        · exact hs.2
        · rename_i f _
          cases f <;> exact ⟨hs.2.1, rfl⟩
      · refine idleLeases_induct (P := fun s => KeepsBooks g s ∧ s.oom = g.oom ∧ s.dynamicPool.isSome) ?_ hp
          (h.runs p hp).nodup_mapped ⟨KeepsBooks.refl g, rfl, by rw [hp]; rfl⟩
        intro s d hs hd _ _
        refine ⟨hs.1.trans (KeepsBooks.moveToDormant hd), hs.2.1, ?_⟩
        unfold moveToDormant
        rw [Option.isSome_map]
        exact hs.2.2
    dsimp only
    obtain ⟨hs, hso, hsp⟩ := hk _ rfl
    generalize expireLeases (p.mappedList.length + p.dormantList.length) (idleLeases g p) = s at hs hso hsp
    have hwrite : wantsWrite s shutdown = true := by
      unfold wantsWrite
      rw [hs.dataDir, hs.pending]
      simp [hdir, hw]
    rw [ho] at hso
    split
    · rename_i hn
      rw [hn] at hsp
      cases hsp
    · rw [if_pos hwrite, if_neg (by simp [hso])]
      rfl

/-! ### The invariant -/

/-- What the next file will hold: the rows being written, else those of the file. -/
def Saving.next (s : Saving) : List DynamicSnapshot := if s.sys.writing.isSome then s.snapshot else s.file

/-- Every lease is in the next file, or its write is pending; a file that was written is the one under way. -/
structure SaveInv (s : Saving) : Prop where
  base : SysBase s.sys
  dataDir : s.sys.map.dataDir ≠ []
  saved : ∀ d ∈ s.sys.map.leases, s.sys.map.mapWritePending = true ∨ Listed s.next s.sys.map d
  disk : s.sys.writing.isSome → s.disk = some false → s.file = s.snapshot

/-- The steps that neither begin nor end a write. -/
private theorem booked_step {s : System} (h : SysBase s) {e : Event} (hm : ∀ b, e ≠ .dynamicMaint b)
    (hw : ∀ b, e ≠ .written b) : Booked s.map (step libc s e).map ∧ (step libc s e).writing = s.writing := by
  have hrefl := (KeepsBooks.refl s.map).booked
  cases e with
  | look w l =>
    simp only [step]
    split
    · cases hp : l.probe s.map with
      | some g =>
        obtain ⟨c, rfl⟩ := Lookup.probe_eq_some hp
        exact ⟨(KeepsBooks.touch s.map c).booked, rfl⟩
      | none => exact ⟨hrefl, rfl⟩
    · exact ⟨hrefl, rfl⟩
  | finish w =>
    simp only [step]
    cases hp : s.pending w with
    | none => exact ⟨hrefl, rfl⟩
    | some l => exact ⟨booked_slow h.base (h.checked w l hp), rfl⟩
  | cacheMaint =>
    simp only [step]
    split
    · exact ⟨hrefl, rfl⟩
    · refine ⟨(addrmapMaint_induct (P := KeepsBooks s.map) (fun s c hs _ => hs.trans (KeepsBooks.releaseEntry s c))
        h.base.cache.nodup_active (KeepsBooks.refl _)).booked, rfl⟩
  | dynamicMaint b => exact absurd rfl (hm b)
  | written b => exact absurd rfl (hw b)
  | reload file =>
    simp only [step]
    split
    · exact ⟨hrefl, rfl⟩
    · exact ⟨(KeepsBooks.addrmapReload h.base file).booked, rfl⟩
  | tick t =>
    simp only [step]
    split
    · exact ⟨⟨rfl, .inr ⟨fun _ h => h, fun _ => rfl, fun _ => rfl, rfl, rfl⟩⟩, rfl⟩
    · exact ⟨hrefl, rfl⟩
  | alloc fails => exact ⟨⟨rfl, .inr ⟨fun _ h => h, fun _ => rfl, fun _ => rfl, rfl, rfl⟩⟩, rfl⟩

/-- A step that neither begins nor ends a write keeps the invariant. -/
theorem SaveInv.other {s : Saving} (h : SaveInv s) {e : Event} (hm : ∀ b, e ≠ .dynamicMaint b)
    (hw : ∀ b, e ≠ .written b) : SaveInv { s with sys := step libc s.sys e } := by
  have hbook : Booked s.sys.map (step libc s.sys e).map ∧ (step libc s.sys e).writing = s.sys.writing :=
    booked_step h.base hm hw
  obtain ⟨⟨hdir, hb⟩, hwr⟩ := hbook
  refine ⟨h.base.step e, ?_, fun d hd => ?_, ?_⟩
  · dsimp only
    rw [hdir]
    exact h.dataDir
  · dsimp only at hd ⊢
    rcases hb with hp | hk
    · exact .inl hp
    · have hn : Saving.next { s with sys := step libc s.sys e } = s.next := by
        unfold Saving.next
        rw [hwr]
      rw [hn, hk.pending, hk.listed]
      exact h.saved d (hk.leases d hd)
  · dsimp only
    rw [hwr]
    exact h.disk

theorem SaveInv.dynamicMaint {s : Saving} (h : SaveInv s) (shutdown : Bool) :
    SaveInv (saveStep libc s (.event (.dynamicMaint shutdown))) := by
  simp only [saveStep]
  split
  · exact h
  rename_i hw
  obtain ⟨hold, hdir, hnone, hrows⟩ := dynamicMaint_books h.base.base shutdown
  have hstep : step libc s.sys (.dynamicMaint shutdown) = { s.sys with
      map := (Tayga.dynamicMaint s.sys.map shutdown).1
      writing := (Tayga.dynamicMaint s.sys.map shutdown).2.map Prod.snd } := by
    simp only [step, if_neg hw]
  have hbase : SysBase (step libc s.sys (.dynamicMaint shutdown)) := h.base.step _
  rw [hstep] at hbase ⊢
  refine ⟨hbase, ?_, ?_, fun _ hd => absurd hd (Option.some_ne_none false).symm⟩
  · dsimp only
    rw [hdir]
    exact h.dataDir
  · intro d hd
    dsimp only at hd ⊢
    cases hr : (Tayga.dynamicMaint s.sys.map shutdown).2 with
    | none =>
      -- nothing is written: the next file is still the one there is
      rcases hnone hr with hp | hp
      · exact .inl hp
      · obtain ⟨hd', h4, h6⟩ := hold d hd
        have hs := h.saved d hd'
        rw [Saving.next, if_neg hw] at hs
        rw [hp]
        refine hs.imp_right ?_
        rintro ⟨r, hr, e4, e6⟩
        exact ⟨r, hr, e4.trans h4.symm, e6.trans h6.symm⟩
    | some r => exact .inr (hrows r.1 r.2 hr d hd)

theorem SaveInv.written {s : Saving} (h : SaveInv s) (failed : Bool) :
    SaveInv (saveStep libc s (.event (.written failed))) := by
  simp only [saveStep]
  split
  · rename_i hdisk
    cases hw : s.sys.writing with
    | none =>
      have e : step libc s.sys (.written failed) = s.sys := by
        simp only [step, hw]
      rw [e]
      exact ⟨h.base, h.dataDir, h.saved, fun _ hd => absurd hd (Option.some_ne_none false).symm⟩
    | some t =>
      have hb : SysBase (step libc s.sys (.written failed)) := h.base.step _
      simp only [step, hw] at hb ⊢
      refine ⟨hb, ?_, fun d hd => ?_, fun _ hd => absurd hd (Option.some_ne_none false).symm⟩
      · cases failed <;> exact h.dataDir
      · cases failed with
        | true => exact .inl rfl
        | false =>
          have hs := h.saved d hd
          simp only [Saving.next, hw, Option.isSome_some, if_true] at hs
          rw [← h.disk (by rw [hw]; rfl) hdisk] at hs
          exact hs
  · exact h

private theorem SaveInv.disk' {s : Saving} (h : SaveInv s) (failed : Bool) :
    SaveInv (saveStep libc s (.disk failed)) := by
  simp only [saveStep]
  split
  · rename_i hw
    refine ⟨h.base, h.dataDir, fun d hd => ?_, fun _ hd => ?_⟩
    · have hs := h.saved d hd
      simp only [Saving.next, hw.1, if_true] at hs ⊢
      exact hs
    · obtain rfl := Option.some.inj hd
      rfl
  · exact h

/-- Every step keeps every lease saved or pending. -/
theorem SaveInv.step {s : Saving} (h : SaveInv s) (e : SaveEvent) : SaveInv (saveStep libc s e) := by
  cases e with
  | disk failed => exact h.disk' failed
  | event e =>
    cases e with
    | dynamicMaint shutdown => exact h.dynamicMaint shutdown
    | written failed => exact h.written failed
    | _ => exact h.other nofun nofun

theorem SaveInv.run {s : Saving} (h : SaveInv s) (es : List SaveEvent) :
    SaveInv (Run.run (saveStep libc) s es) := by
  induction es generalizing s with
  | nil => exact h
  | cons e es ih => exact ih (h.step e)

/-! ### From every startup -/

/-- The rows of the file that is there at the start, which `load_dynamic` reads. -/
def fileRows (libc : Libc) (file : Option (List Char)) : List DynamicSnapshot := (file.map (dynamicRows libc)).getD []

/-- The accepted lines are lines of the file. -/
private theorem accepted_subset (g : Gcfg) (p : DynamicPool) (rows : List DynamicSnapshot) :
    accepted g p rows ⊆ rows := by
  have key : ∀ rows seen : List DynamicSnapshot, rows.foldl (admitRow g p) seen ⊆ seen ++ rows := by
    intro rows
    induction rows with
    | nil => exact fun seen r hr => List.mem_append_left _ hr
    | cons r rows ih =>
      intro seen t ht
      have ht' := ih _ ht
      unfold admitRow at ht'
      split at ht'
      · simp only [List.mem_append, List.mem_cons] at ht' ⊢
        tauto
      · simp only [List.mem_append, List.mem_cons] at ht' ⊢
        tauto
  exact key rows []

/-- A lease that was loaded has a row in the file. -/
private theorem listed_loadDynamic (h : Inv g) (hl : g.leases = []) (file : Option (List Char)) (time : Int) {d : Nat}
    (hd : d ∈ (loadDynamic g libc file time).leases) : Listed (fileRows libc file) (loadDynamic g libc file time) d
        := by
  have hno : loadDynamic g libc file time ≠ g := by
    intro e
    rw [e, hl] at hd
    cases hd
  obtain ⟨hm, hdor⟩ := List.append_eq_nil_iff.1 hl
  cases hp : g.dynamicPool with
  | none =>
    refine absurd ?_ hno
    unfold loadDynamic
    rw [hp]
  | some p =>
    cases file with
    | none =>
      refine absurd ?_ hno
      unfold loadDynamic
      rw [hp]
    | some content =>
      have e : loadDynamic g libc (some content) time =
          settleLeases { loadRows g (dynamicRows libc content) with now := time } := by
        unfold loadDynamic
        rw [hp]
      rw [e] at hd ⊢
      have hb := h.base.loadRows (dynamicRows libc content)
      have hsame : SameLeases (loadRows g (dynamicRows libc content))
          (settleLeases { loadRows g (dynamicRows libc content) with now := time }) :=
        (SameLeases.tick _ time).trans (SameLeases.settleLeases (hb.tick time))
      cases ho : g.oom with
      | true =>
        rw [hsame.leases.mem_iff, loadRows_of_oom ho, hl] at hd
        cases hd
      | false =>
        have hload := loading_loadRows h.base hp hm hdor ho (dynamicRows libc content)
        have hrow := (hload.leases hsame).mem_iff.1 (List.mem_map_of_mem hd)
        obtain ⟨r, hr, he⟩ := List.mem_map.1 hrow
        obtain ⟨h4, h6⟩ := Prod.mk.inj he
        exact ⟨r, accepted_subset g p _ hr, h4, h6⟩

private theorem dataDir_stored {p : DynamicPool} {r : DynamicSnapshot} {f : FreeRef} :
    (stored g p r f).dataDir = g.dataDir := by
  cases f <;> simp only [stored, offered, moveToDormant, delMap4, delMap6, fresh, withDormant, cut, Gcfg.setFree,
    addLease, Gcfg.setHost]

private theorem dataDir_loadRows (h : Base g) (rows : List DynamicSnapshot) :
    (loadRows g rows).dataDir = g.dataDir := by
  induction rows generalizing g with
  | nil => rfl
  | cons r rows ih =>
    have hstep : (loadMap g r.addr6 r.addr4 r.lastUse).dataDir = g.dataDir := by
      cases hp : g.dynamicPool with
      | none =>
        unfold loadMap
        rw [hp]
      | some p =>
        rcases loadMap_cases h hp r with ⟨-, -, -, f, -, e⟩ | ⟨-, e⟩ <;> rw [e]
        exact dataDir_stored
    have hb : Base (loadMap g r.addr6 r.addr4 r.lastUse) := h.loadRows [r]
    have hcons : loadRows g (r :: rows) = loadRows (loadMap g r.addr6 r.addr4 r.lastUse) rows := rfl
    rw [hcons, ih hb, hstep]

/-- The load leaves the data directory alone. -/
private theorem dataDir_loadDynamic (h : Base g) (file : Option (List Char)) (time : Int) :
    (loadDynamic g libc file time).dataDir = g.dataDir := by
  have key : ∀ s : Gcfg, s.dataDir = g.dataDir → (settleLeases s).dataDir = g.dataDir := by
    intro s hs
    refine settleLeases_induct (P := fun s => s.dataDir = g.dataDir) (fun s d hs _ => ?_) (fun _ _ _ hs => hs) hs
    rw [(books_moveToMapped s d).1]
    exact hs
  unfold loadDynamic
  split
  · rename_i content _
    have hrows := dataDir_loadRows h (dynamicRows libc content)
    generalize loadRows g (dynamicRows libc content) = s at hrows ⊢
    exact key _ hrows
  · rfl

/-- The state when the workers start: the configuration is accepted and the map file read, then the leases are
loaded. -/
private theorem saveInv_start {e : Endian} {now : Int} {content : List Char} {sd : Option (List Char)}
    {rand : Nat → BitVec 32} {g₀ : Gcfg} (hs : startup libc e now content sd rand = .ok g₀) {maps : Option MapFileRead}
    (hr : addrmapReload g₀ libc maps = (.ok (), g)) (hdir : g.dataDir ≠ []) (fails : Bool) (file : Option (List Char))
    (time : Int) :
    SaveInv (.start (loadDynamic { g with oom := fails } libc file time) (fileRows libc file)) := by
  obtain ⟨hi, hl⟩ := booted hs hr
  have hb := (hi.alloc fails).base
  refine ⟨⟨hb.loadDynamic file time, nofun⟩, ?_, fun d hd => ?_, nofun⟩
  · show (loadDynamic { g with oom := fails } libc file time).dataDir ≠ []
    rw [dataDir_loadDynamic hb]
    exact hdir
  · exact .inr (listed_loadDynamic (hi.alloc fails) hl file time hd)

/-- **No lease is lost**: in every state of every run of lookups, maintenance and reloads, from every startup with a
data directory, every lease is in the last file written, or in the snapshot being written, or its write is pending;
then the next pass that has the memory takes a snapshot of every lease it leaves. -/
theorem saves_run {e : Endian} {now : Int} {content : List Char} {sd : Option (List Char)} {rand : Nat → BitVec 32}
    {g₀ : Gcfg} (hs : startup libc e now content sd rand = .ok g₀) {maps : Option MapFileRead}
    (hr : addrmapReload g₀ libc maps = (.ok (), g)) (hdir : g.dataDir ≠ []) (fails : Bool) (file : Option (List Char))
    (time : Int) (es : List SaveEvent) :
    let s := Run.run (saveStep libc)
      (.start (loadDynamic { g with oom := fails } libc file time) (fileRows libc file)) es
    ∀ d ∈ s.sys.map.leases, Listed s.file s.sys.map d ∨
      (s.sys.writing.isSome ∧ Listed s.snapshot s.sys.map d) ∨
      (s.sys.map.mapWritePending = true ∧ (s.sys.writing = none → s.sys.map.oom = false → ∀ shutdown,
        let s' := saveStep libc s (.event (.dynamicMaint shutdown))
        s'.sys.writing.isSome ∧ ∀ e ∈ s'.sys.map.leases, Listed s'.snapshot s'.sys.map e)) := by
  intro s d hd
  have h : SaveInv s := (saveInv_start hs hr hdir fails file time).run es
  rcases h.saved d hd with hp | hn
  · refine .inr (.inr ⟨hp, fun hw ho shutdown => ?_⟩)
    obtain ⟨r, hr⟩ := Option.isSome_iff_exists.1 (dynamicMaint_writes h.base.base hd h.dataDir hp ho shutdown)
    obtain ⟨-, -, -, hrows⟩ := dynamicMaint_books h.base.base shutdown
    have hstep : saveStep libc s (.event (.dynamicMaint shutdown)) = { s with
        sys := { s.sys with
          map := (dynamicMaint s.sys.map shutdown).1
          writing := some r.2 }
        snapshot := r.1
        disk := none } := by
      simp only [saveStep, step, hw, hr]
      rfl
    rw [hstep]
    exact ⟨rfl, fun e he => hrows r.1 r.2 hr e he⟩
  · unfold Saving.next at hn
    split at hn
    · rename_i hw
      exact .inr (.inl ⟨hw, hn⟩)
    · exact .inl hn

/-- A host sends while a write is under way, and the write fails. -/
def sampleSave : List SaveEvent :=
  [.event (.dynamicMaint true), .event (.look 0 (.six sampleHost true)), .event (.finish 0), .disk true,
    .event (.written true)]

/-- The lease that was assigned meanwhile is not in the file that failed, and its write is pending. -/
theorem saves_run_sample : ∃ g, sampleData = .ok g ∧
    let s := Run.run (saveStep sampleLibc)
      (.start (loadDynamic { g with oom := false } sampleLibc none 1000000) (fileRows sampleLibc none)) sampleSave
    0 ∈ s.sys.map.leases ∧ (Listed s.file s.sys.map 0 ∨ (s.sys.writing.isSome ∧ Listed s.snapshot s.sys.map 0) ∨
      s.sys.map.mapWritePending = true) := by
  obtain ⟨g, hs, hm, hdir, hl⟩ := start_any (r := sampleData) (p := fun g => g.mapFile = [] ∧ g.dataDir ≠ [] ∧
    0 ∈ (Run.run (saveStep sampleLibc) (.start (loadDynamic { g with oom := false } sampleLibc none 1000000)
      (fileRows sampleLibc none)) sampleSave).sys.map.leases) (by decide +kernel)
  have hload : addrmapReload g sampleLibc none = (.ok (), g) := by
    unfold addrmapReload
    rw [if_pos hm]
  refine ⟨g, hs, hl, ?_⟩
  rcases saves_run hs hload hdir false none 1000000 sampleSave 0 hl with hfile | hsnapshot | ⟨hpending, -⟩
  · exact .inl hfile
  · exact .inr (.inl hsnapshot)
  · exact .inr (.inr hpending)

end Tayga
