import Tayga.Entries
import Tayga.Maint
import Tayga.Reload

/-!
# A reload keeps the invariant

The entries of a map file are well formed one by one (`parseMapEntry_spec`) and conflict with no other entry of the file
(`Staged`); those that conflict with a mapping the file does not own are dropped.  So after the file's old entries have
been taken out every staged one can be linked, and the flush leaves no pair that was computed from the old maps.
-/

namespace Tayga

open FirstMatch

variable {g : Gcfg} {libc : Libc}

/-! ### Parsing -/

/-- A well-formed entry of a map file. -/
structure FileEntry (s : MapStatic) : Prop where
  ok : StaticOk s
  type : s.map4.type = .static
  origin : s.origin = .mapfile
  valid : s.map6.prefixLen ≠ 0 → validateIp6Addr s.map6.addr = none

theorem parseMapEntry_spec {line : Nat} {v4 v6 : List Char} {s : MapStatic}
    (h : parseMapEntry g libc line v4 v6 = some s) : FileEntry s := by
  unfold parseMapEntry at h
  split at h
  · cases h
  split at h
  · rename_i len4 len6 hl4 hl6
    split at h
    · cases h
    rename_i hfit
    split at h
    · rename_i addr4 addr6 ha4 ha6
      split at h
      · rename_i mask4 mask6 hm4 hm6
        split at h
        · cases h
        split at h
        · cases h
        rename_i hv
        cases h
        obtain ⟨h41, h42, h43⟩ := calcIp4Mask_eq_some.1 hm4
        obtain ⟨h61, h62, h63⟩ := calcIp6Mask_eq_some.1 hm6
        refine ⟨⟨⟨⟨h41, h42, h43⟩, ⟨h61, h62, h63⟩, ?_⟩, Or.inl ⟨rfl, rfl⟩⟩, rfl, rfl, ?_⟩
        · simp only [MapStatic.bits]
          omega
        · intro h0
          simp only [not_and, Bool.not_eq_true, Option.isSome_eq_false_iff, Option.isNone_iff_eq_none] at hv
          exact hv h0
      · cases h
    · cases h
  · cases h

/-- Two entries share a network in neither family. -/
def Apart (s t : MapStatic) : Prop := s.map4.same t.map4 = false ∧ s.map6.overlaps t.map6 = false

private theorem Map4.same_comm (s m : Map4) : s.same m = m.same s := by
  simp only [Map4.same, eq_comm]

private theorem Map6.overlaps_comm (a b : Map6) : a.overlaps b = b.overlaps a := Bool.or_comm _ _

theorem Apart.symm {s t : MapStatic} (h : Apart s t) : Apart t s :=
  ⟨by rw [Map4.same_comm]; exact h.1, by rw [Map6.overlaps_comm]; exact h.2⟩

private theorem Map6.clash_of_overlaps {s m : Map6} (h : s.overlaps m = false) : s.clash m = false := by
  unfold Map6.overlaps at h
  rw [Bool.or_eq_false_iff] at h
  unfold Map6.clash
  split
  · exact h.2
  · exact h.1

/-- The staged entries are well formed and pairwise apart. -/
structure Staged (l : List MapStatic) : Prop where
  entry : ∀ s ∈ l, FileEntry s
  apart : l.Pairwise Apart

theorem Staged.nil : Staged [] := ⟨by simp, List.Pairwise.nil⟩

theorem Staged.filter {l : List MapStatic} (h : Staged l) (q : MapStatic → Bool) : Staged (l.filter q) :=
  ⟨fun s hs => h.entry s (List.mem_filter.1 hs).1, h.apart.filter q⟩

theorem Staged.stage {l : List MapStatic} (h : Staged l) {s : MapStatic} (hs : FileEntry s) : Staged (stage l s) := by
  unfold Tayga.stage
  refine ⟨?_, ?_⟩
  · intro t ht
    rcases List.mem_append.1 ht with ht | ht
    · exact h.entry t (List.mem_filter.1 ht).1
    · rw [List.mem_singleton.1 ht]
      exact hs
  · rw [List.pairwise_append]
    refine ⟨h.apart.filter _, List.pairwise_singleton _ _, ?_⟩
    intro t ht t' ht'
    rw [List.mem_singleton.1 ht']
    have := (List.mem_filter.1 ht).2
    simp only [Bool.not_eq_true', Bool.or_eq_false_iff] at this
    exact this

theorem Staged.reloadLine {l l' : List MapStatic} (h : Staged l) {ln : Nat} {line : List Char}
    (hr : reloadLine g libc ln l line = some l') : Staged l' := by
  unfold Tayga.reloadLine at hr
  split at hr
  · cases hr
  split at hr
  · cases hr
    exact h
  · split at hr
    · rw [Option.map_eq_some_iff] at hr
      obtain ⟨s, hs, rfl⟩ := hr
      exact h.stage (parseMapEntry_spec hs)
    · cases hr
  · cases hr

/-- Every file that parses gives well-formed entries that are pairwise apart. -/
theorem staged_parseMapFile {content : List Char} {l : List MapStatic}
    (h : parseMapFile g libc content = some l) : Staged l := by
  unfold parseMapFile at h
  have key : ∀ (lines : List (List Char × Nat)) (l₀ : List MapStatic), Staged l₀ →
      lines.foldlM (fun staged l => Tayga.reloadLine g libc (l.2 + 1) staged l.1) l₀ = some l → Staged l := by
    intro lines
    induction lines with
    | nil =>
      intro l₀ h₀ hl
      cases hl
      exact h₀
    | cons line lines ih =>
      intro l₀ h₀ hl
      rw [List.foldlM_cons] at hl
      cases hr : Tayga.reloadLine g libc (line.2 + 1) l₀ line.1 with
      | none =>
        rw [hr] at hl
        cases hl
      | some l₁ =>
        rw [hr] at hl
        exact ih l₁ (h₀.reloadLine hr) hl
  exact key _ [] Staged.nil h

/-! ### Taking the file's entries out -/

/-- The lists without the entries of `l` that came from the file. -/
def without (g : Gcfg) (l : List MapRef) : Gcfg :=
  relist g (g.map4List.filter fun m => !(isFileMap g m && decide (m ∈ l)))
    (g.map6List.filter fun m => !(isFileMap g m && decide (m ∈ l))) g.statics g.nStatics

private theorem without_nil : without g [] = g := by
  have h : ∀ l : List MapRef, (l.filter fun m => !(isFileMap g m && decide (m ∈ ([] : List MapRef)))) = l :=
    fun l => List.filter_eq_self.2 (by simp)
  unfold without
  rw [h, h]
  rfl

private theorem dropFileMaps_eq_without (g : Gcfg) : dropFileMaps g = without g g.map4List := by
  have key : ∀ (l : List MapRef) (s : Gcfg),
      l.foldl (fun s m => if isFileMap s m then delMap6 (delMap4 s m) m else s) s = without s l := by
    intro l
    induction l with
    | nil => exact fun s => without_nil.symm
    | cons m l ih =>
      intro s
      rw [List.foldl_cons, ih]
      have hf : ∀ n, isFileMap (if isFileMap s m = true then delMap6 (delMap4 s m) m else s) n = isFileMap s n := by
        intro n
        split <;> cases n <;> rfl
      have h : ∀ k : List MapRef,
          ((if isFileMap s m = true then k.filter (· ≠ m) else k).filter
            fun n => !(isFileMap s n && decide (n ∈ l))) =
          k.filter fun n => !(isFileMap s n && decide (n ∈ m :: l)) := by
        intro k
        split
        · rename_i hm
          rw [List.filter_filter]
          refine List.filter_congr fun n _ => ?_
          by_cases hn : n = m
          · subst hn
            simp [hm]
          · simp [hn]
        · rename_i hm
          refine List.filter_congr fun n _ => ?_
          by_cases hn : n = m
          · subst hn
            simp [hm]
          · simp [hn]
      unfold without
      simp only [hf]
      rw [← h s.map4List, ← h s.map6List]
      split <;> rfl
  exact key g.map4List g

/-- The lists without the file's entries. -/
theorem dropFileMaps_eq (hm : TablesInv g) : dropFileMaps g = relist g
    (g.map4List.filter fun m => !isFileMap g m) (g.map6List.filter fun m => !isFileMap g m) g.statics g.nStatics := by
  rw [dropFileMaps_eq_without, without]
  congr 1
  · refine List.filter_congr fun m hmem => ?_
    simp [hmem]
  · refine List.filter_congr fun m hmem => ?_
    cases m with
    | static i => simp [hm.pair64 i hmem]
    | pool => rfl
    | host d => rfl

section Drop

theorem mem4_dropFileMaps (hm : TablesInv g) {m : MapRef} :
    m ∈ (dropFileMaps g).map4List ↔ m ∈ g.map4List ∧ isFileMap g m = false := by
  rw [dropFileMaps_eq hm]
  simp [relist]

theorem mem6_dropFileMaps (hm : TablesInv g) {m : MapRef} :
    m ∈ (dropFileMaps g).map6List ↔ m ∈ g.map6List ∧ isFileMap g m = false := by
  rw [dropFileMaps_eq hm]
  simp [relist]

private theorem isFileMap_own {i : Nat} (h : IsOwn g i) : isFileMap g (.static i) = false := by
  simp [isFileMap, h.origin]

private theorem isFileMap_rfc6052 (hm : TablesInv g) {i : Nat} (hi : .static i ∈ g.map6List)
    (ht : (g.statics i).map6.type = .rfc6052) : isFileMap g (.static i) = false := by
  simp [isFileMap, ((hm.static_ok6 hi).rfc4 ht).1]

/-- Taking the file's entries out keeps the tables. -/
theorem TablesInv.dropFileMaps (h : TablesInv g) : TablesInv (dropFileMaps g) := by
  have m4 := fun m => mem4_dropFileMaps h (m := m)
  have m6 := fun m => mem6_dropFileMaps h (m := m)
  rw [dropFileMaps_eq h] at m4 m6 ⊢
  refine ⟨⟨h.list4.filter _, h.list6.filter _, ?_, ?_, ?_, ?_, ?_, ?_, ?_, ?_, ?_, h.host_ok⟩, ?_⟩
  · exact fun i hi => h.static_lt i ((m4 _).1 hi).1
  · exact fun i hi => h.static_ok i ((m4 _).1 hi).1
  · exact fun i hi => h.valid6 i ((m6 _).1 hi).1
  · exact fun i hi => (m4 _).2 ⟨h.pair64 i ((m6 _).1 hi).1, ((m6 _).1 hi).2⟩
  · intro i hi
    obtain ⟨hi, hf⟩ := (m4 _).1 hi
    exact (h.pair46 i hi).imp (fun h6 => (m6 _).2 ⟨h6, hf⟩) fun ho => ⟨ho.map4, ho.map6, ho.origin⟩
  · rw [m4]
    exact (and_iff_left rfl).trans h.pool4
  · rw [m6]
    exact fun hp => h.pool6 hp.1
  · exact fun d hd => h.host4 d ((m4 _).1 hd).1
  · exact fun d hd => h.host6 d ((m6 _).1 hd).1
  · obtain ⟨i, hi, hown, h6⟩ := h.own
    refine ⟨i, (m4 _).2 ⟨hi, isFileMap_own hown⟩, ⟨hown.map4, hown.map6, hown.origin⟩, ?_⟩
    rcases h6 with h6 | ⟨j, hj, ht, hd⟩
    · exact Or.inl ((m6 _).2 ⟨h6, isFileMap_own hown⟩)
    · exact Or.inr ⟨j, (m6 _).2 ⟨hj, isFileMap_rfc6052 h hj ht⟩, ht, hd⟩

theorem Base.dropFileMaps (h : Base g) : Base (dropFileMaps g) := by
  have ht := h.tables.dropFileMaps
  rw [dropFileMaps_eq h.tables] at ht ⊢
  exact h.relist ht

/-- Taking the file's entries out keeps everything well formed. -/
theorem Wf.dropFileMaps (h : Wf g) : Wf (dropFileMaps g) := by
  have ht := h.maps.toTablesInv.dropFileMaps
  have m4 := fun m => mem4_dropFileMaps h.maps.toTablesInv (m := m)
  have m6 := fun m => mem6_dropFileMaps h.maps.toTablesInv (m := m)
  rw [dropFileMaps_eq h.maps.toTablesInv] at ht m4 m6 ⊢
  exact h.relist ⟨ht, fun d hd => (m4 _).2 ⟨h.maps.listed4 d hd, rfl⟩, fun d hd => (m6 _).2 ⟨h.maps.listed6 d hd, rfl⟩⟩

end Drop

/-! ### Linking the staged entries -/

/-- What linking one entry keeps linking staged entries one after the other keeps; `l₀` are those already linked. -/
private theorem linkStatics_induct {P : List MapStatic → Gcfg → Prop} (htab : ∀ l s, P l s → TablesInv s)
    (hlink : ∀ l s m, P l s → CanLink s m → P (l ++ [m]) (Tayga.withStatic s m)) {l₀ l : List MapStatic} (hl : Staged l)
    (h4 : ∀ s ∈ l, ∀ m ∈ g.map4List, (g.map4 m).same s.map4 = false)
    (h6 : ∀ s ∈ l, ∀ m ∈ g.map6List, (g.map6 m).overlaps s.map6 = false) (h : P l₀ g) :
    P (l₀ ++ l) (l.foldl linkStatic g) := by
  induction l generalizing g l₀ with
  | nil =>
    rw [List.append_nil]
    exact h
  | cons s l ih =>
    rw [List.foldl_cons, ← List.singleton_append, ← List.append_assoc]
    have ht := htab l₀ g h
    have hs : CanLink g s := ⟨(hl.entry s List.mem_cons_self).ok, (hl.entry s List.mem_cons_self).valid,
      h4 s List.mem_cons_self, fun m hm => Map6.clash_of_overlaps (h6 s List.mem_cons_self m hm)⟩
    have e : linkStatic g s = Tayga.withStatic g s := tryInsert_eq_withStatic ht.toListsInv hs
    have hapart := List.pairwise_cons.1 hl.apart
    rw [e]
    refine ih ⟨fun t ht => hl.entry t (List.mem_cons_of_mem s ht), hapart.2⟩ ?_ ?_ (hlink l₀ g s h hs)
    · intro t ht' m hm
      rcases mem4_withStatic.1 hm with rfl | hm
      · rw [map4_withStatic_self]
        exact (hapart.1 t ht').1
      · rw [map4_withStatic_of_ne (ht.ne_new4 hm)]
        exact h4 t (List.mem_cons_of_mem s ht') m hm
    · intro t ht' m hm
      rcases mem6_withStatic.1 hm with rfl | hm
      · rw [map6_withStatic_self]
        exact (hapart.1 t ht').2
      · rw [map6_withStatic_of_ne (ht.ne_new6 hm)]
        exact h6 t (List.mem_cons_of_mem s ht') m hm

/-- A staged entry without a conflict can be linked once the file's old entries are out. -/
private theorem free_dropFileMaps (h : TablesInv g) {s : MapStatic} (hs : conflicts g s = false) :
    (∀ m ∈ (dropFileMaps g).map4List, ((dropFileMaps g).map4 m).same s.map4 = false) ∧
    ∀ m ∈ (dropFileMaps g).map6List, ((dropFileMaps g).map6 m).overlaps s.map6 = false := by
  simp only [conflicts, Bool.or_eq_false_iff, List.any_eq_false] at hs
  refine ⟨fun m hm => ?_, fun m hm => ?_⟩
  · obtain ⟨hm, hf⟩ := (mem4_dropFileMaps h).1 hm
    have := hs.1 m hm
    rw [dropFileMaps_eq h, map4_relist]
    simpa [hf] using this
  · obtain ⟨hm, hf⟩ := (mem6_dropFileMaps h).1 hm
    have := hs.2 m hm
    rw [dropFileMaps_eq h, map6_relist]
    simpa [hf] using this

/-- What linking one entry keeps linking the entries to be published keeps, once the file's old entries are out. -/
theorem linkKept_induct {P : List MapStatic → Gcfg → Prop} (htab : ∀ l s, P l s → TablesInv s)
    (hlink : ∀ l s m, P l s → CanLink s m → P (l ++ [m]) (Tayga.withStatic s m)) {l : List MapStatic} (hl : Staged l)
    (ht : TablesInv g) (h : P [] (Tayga.dropFileMaps g)) :
    P (l.filter fun m => !conflicts g m) ((l.filter fun m => !conflicts g m).foldl linkStatic (Tayga.dropFileMaps g))
        := by
  have hfree := fun s (hs : s ∈ l.filter fun m => !conflicts g m) =>
    free_dropFileMaps ht (by simpa using (List.mem_filter.1 hs).2)
  have := linkStatics_induct htab hlink (hl.filter _) (fun s hs => (hfree s hs).1) (fun s hs => (hfree s hs).2) h
  rwa [List.nil_append] at this

/-- What taking the file's entries out, linking one entry and releasing one cache entry keep publishing keeps. -/
theorem publishMaps_induct {P : Gcfg → Prop} (htab : ∀ s, P s → Base s) (hdrop : ∀ s, P s → P (Tayga.dropFileMaps s))
    (hlink : ∀ s m, P s → CanLink s m → P (Tayga.withStatic s m))
    (hrel : ∀ s c, P s → c ∈ s.cacheActive → P (Tayga.releaseEntry s c)) {l : List MapStatic} (hl : Staged l)
        (h : P g) :
    P (Tayga.publishMaps g l) := by
  have hp := linkKept_induct (P := fun _ s => P s) (fun _ s hs => (htab s hs).tables) (fun _ s m => hlink s m) hl
    (htab g h).tables (hdrop g h)
  exact flushCache_induct hrel (htab _ hp).cache.nodup_active hp

/-- Publishing staged entries keeps the invariant: afterwards the cache is empty. -/
theorem Inv.publishMaps (h : Inv g) {l : List MapStatic} (hl : Staged l) : Inv (Tayga.publishMaps g l) := by
  have hwf := publishMaps_induct (P := Wf) (fun _ h => h.base) (fun _ h => h.dropFileMaps)
    (fun _ _ h hs => h.withStatic hs) (fun _ _ h hc => h.releaseEntry hc) hl h.wf
  refine hwf.inv ?_
  rintro a x ⟨c, hc, -⟩
  rw [Tayga.publishMaps, cacheActive_flushCache] at hc
  cases hc

/-- `addrmap_reload` publishes the staged entries of the file, or changes nothing. -/
theorem addrmapReload_eq (g : Gcfg) (libc : Libc) (file : Option MapFileRead) :
    (∃ f l, file = some f ∧ parseMapFile g libc f.content = some l ∧ f.ioError = false ∧ g.mapFile ≠ [] ∧
      addrmapReload g libc file = (.ok (), Tayga.publishMaps g l)) ∨
    (g.mapFile = [] ∧ addrmapReload g libc file = (.ok (), g)) ∨ addrmapReload g libc file = (.error .reject, g) := by
  unfold Tayga.addrmapReload
  split
  · rename_i h
    exact Or.inr (Or.inl ⟨h, rfl⟩)
  rename_i hm
  split
  · exact Or.inr (Or.inr rfl)
  rename_i f
  split
  · exact Or.inr (Or.inr rfl)
  rename_i l hl
  split
  · exact Or.inr (Or.inr rfl)
  · rename_i hio
    exact Or.inl ⟨f, l, rfl, hl, by simpa using hio, hm, rfl⟩

/-- `addrmap_reload` keeps the invariant, whatever the file holds. -/
theorem Inv.addrmapReload (h : Inv g) (libc : Libc) (file : Option MapFileRead) :
    Inv (addrmapReload g libc file).2 := by
  rcases addrmapReload_eq g libc file with ⟨f, l, -, hl, -, -, e⟩ | ⟨-, e⟩ | e <;> rw [e]
  · exact h.publishMaps (staged_parseMapFile hl)
  · exact h
  · exact h

theorem Base.addrmapReload (h : Base g) (libc : Libc) (file : Option MapFileRead) :
    Base (addrmapReload g libc file).2 := by
  rcases addrmapReload_eq g libc file with ⟨f, l, -, hl, -, -, e⟩ | ⟨-, e⟩ | e <;> rw [e]
  · exact publishMaps_induct (P := Base) (fun _ h => h) (fun _ h => h.dropFileMaps) (fun _ _ h hs => h.withStatic hs)
      (fun _ _ h hc => h.releaseEntry hc) (staged_parseMapFile hl) h
  · exact h
  · exact h

end Tayga
