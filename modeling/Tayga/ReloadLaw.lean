import Tayga.Grammars
import Tayga.Partition

/-!
# A reload is a transaction

A reload succeeds if every line of the file says nothing or a mapping (`FileSays`), and one that reports an error
changes nothing.  One that succeeds leaves exactly the surviving mappings of the file: a mapping survives when no later
one of the file conflicts with it, and no mapping that the file does not own does (`reload_law_run`).  The lists are
those of any state reached from a startup.
-/

namespace Tayga

variable {g : Gcfg} {libc : Libc}

/-! ### The entries of a file -/

/-- Two entries claim the same IPv4 network or overlapping IPv6 networks. -/
def MapStatic.conflicts (s t : MapStatic) : Bool := s.map4.same t.map4 || s.map6.overlaps t.map6

/-- The words of a line: its longest stretches without a delimiter, up to the first that begins with `#`. -/
def lineWords (line : List Char) : List (List Char) :=
  ((line.splitOnP isDelim).filter fun w => w ≠ []).takeWhile fun w => w.head? ≠ some '#'

/-- Line `ln` of a map file says nothing, or it says a mapping: the word `map` and two networks, written with lengths
that are not empty, the IPv6 one with room for the IPv4 suffix. -/
inductive LineSays (libc : Libc) (ln : Nat) (line : List Char) : List MapStatic → Prop where
  | nothing (hwords : lineWords (cstr line) = []) : LineSays libc ln line []
  | mapping {name v4 v6 : List Char} {a : In4} {b : In6} {l k : Nat} (hwords : lineWords (cstr line) = [name, v4, v6])
      (hname : strcaseeq name "map".toList) (h4 : Spells4 libc v4 a l) (h6 : Spells6 libc v6 b k)
      (hgiven : ¬EmptyLength v4 ∧ ¬EmptyLength v6) (hfit : 32 - l ≤ 128 - k) :
      LineSays libc ln line [⟨⟨a, ip4Mask l, l, .static⟩, ⟨b, ip6Mask k, k, .static⟩, ln, .mapfile⟩]

/-- The file says the mappings `l`, line by line; no line fills the buffer it is read to. -/
def FileSays (libc : Libc) (content : List Char) (l : List MapStatic) : Prop :=
  ∃ ls : List (List MapStatic),
    List.Forall₂ (fun line l => ¬tooLong line.1 ∧ LineSays libc (line.2 + 1) line.1 l) (fileLines content).zipIdx ls ∧
    l = ls.flatten

/-- The entries with which no later one conflicts. -/
def survivors : List MapStatic → List MapStatic
  | [] => []
  | s :: l => if l.any s.conflicts then survivors l else s :: survivors l

private theorem stage_eq (l : List MapStatic) (m : MapStatic) :
    stage l m = (l.filter fun s => !s.conflicts m) ++ [m] := rfl

/-- Staging entries one after the other leaves the survivors, of those staged before as well. -/
private theorem foldl_stage (l₀ l : List MapStatic) :
    l.foldl stage l₀ = (l₀.filter fun s => !l.any s.conflicts) ++ survivors l := by
  induction l generalizing l₀ with
  | nil => simp [survivors]
  | cons m l ih =>
    rw [List.foldl_cons, ih, stage_eq, List.filter_append, List.filter_filter, survivors, List.append_assoc]
    congr 1
    · refine List.filter_congr fun s _ => ?_
      rw [List.any_cons, Bool.not_or, Bool.and_comm]
    · cases h : l.any m.conflicts <;> simp [h]

/-- A line adds its entry, if it has one, to the staged ones. -/
private theorem reloadLine_eq (ln : Nat) (l : List MapStatic) (line : List Char) :
    reloadLine g libc ln l line = (reloadLine g libc ln [] line).map fun k => k.foldl stage l := by
  unfold reloadLine
  split
  · rfl
  split
  · rfl
  · split
    · cases parseMapEntry g libc ln _ _ <;> rfl
    · rfl
  · rfl

/-- `strtok_r` cuts a string into its longest stretches without delimiters. -/
private theorem strtok_eq (tok s : List Char) :
    strtok tok s = ((s.splitOnP isDelim).modifyHead fun w => tok.reverse ++ w).filter fun w => w ≠ [] := by
  induction s generalizing tok with
  | nil =>
    rw [strtok, List.splitOnP_nil, List.modifyHead_cons, List.append_nil]
    by_cases h : tok = [] <;> simp [h]
  | cons c s ih =>
    rw [strtok, List.splitOnP_cons_eq_if_modifyHead, ih, ih]
    obtain ⟨w, ws, hws⟩ := List.exists_cons_of_ne_nil (List.splitOnP_ne_nil isDelim s)
    rw [hws]
    by_cases hc : isDelim c
    · by_cases h : tok = [] <;> simp [hc, h]
    · simp [hc]

private theorem lineArgs_eq (line : List Char) : lineArgs line = lineWords (cstr line) := by
  have hid : (((cstr line).splitOnP isDelim).modifyHead fun w => [].reverse ++ w) = (cstr line).splitOnP isDelim := by
    cases (cstr line).splitOnP isDelim <;> rfl
  rw [lineArgs, strtok_eq, hid]
  rfl

/-- **What `parse_map_entry` takes.** -/
private theorem parseMapEntry_eq_some {ln : Nat} {v4 v6 : List Char} {m : MapStatic} :
    parseMapEntry g libc ln v4 v6 = some m ↔ g.oom = false ∧ ¬EmptyLength v4 ∧ ¬EmptyLength v6 ∧
      ∃ a l b k, Spells4 libc v4 a l ∧ Spells6 libc v6 b k ∧ 32 - l ≤ 128 - k ∧
        m = ⟨⟨a, ip4Mask l, l, .static⟩, ⟨b, ip6Mask k, k, .static⟩, ln, .mapfile⟩ := by
  rw [parseMapEntry_eq]
  by_cases hoom : g.oom
  · simp [hoom]
  rw [if_neg hoom, Bool.eq_false_of_not_eq_true hoom]
  by_cases hempty : EmptyLength v4 ∨ EmptyLength v6
  · rw [checkedPair_empty hempty]
    simp only [Option.map_none, reduceCtorEq, false_iff]
    rintro ⟨-, h4, h6, -⟩
    exact hempty.elim h4 h6
  rw [not_or] at hempty
  rw [entryLen_eq (by omega), entryLen_eq (by omega), if_neg hempty.1, if_neg hempty.2, Option.map_eq_some_iff]
  simp only [checkedPair_eq_some]
  constructor
  · rintro ⟨-, ⟨a, l, b, k, h4, h6, hfit, rfl⟩, rfl⟩
    exact ⟨trivial, hempty.1, hempty.2, a, l, b, k, h4, h6, hfit, rfl⟩
  · rintro ⟨-, -, -, a, l, b, k, h4, h6, hfit, rfl⟩
    exact ⟨_, ⟨a, l, b, k, h4, h6, hfit, rfl⟩, rfl⟩

/-- **What a line of the file is read as**, when memory lasts. -/
private theorem reloadLine_eq_some {ln : Nat} {line : List Char} {l : List MapStatic} :
    reloadLine g libc ln [] line = some l ↔
      (¬tooLong line ∧ LineSays libc ln line l) ∧ (g.oom → l = []) := by
  unfold reloadLine
  rw [lineArgs_eq]
  by_cases hlong : tooLong line
  · simp [hlong]
  rw [if_neg hlong, and_assoc, and_iff_right hlong]
  split
  · next hwords =>
    constructor
    · intro h
      obtain rfl := Option.some.inj h
      exact ⟨.nothing hwords, fun _ => rfl⟩
    · rintro ⟨hfile, -⟩
      cases hfile with
      | nothing => rfl
      | mapping hwords' => cases hwords.symm.trans hwords'
  · next name v4 v6 hwords =>
    constructor
    · intro h
      split at h
      · next hname =>
        obtain ⟨m, hm, rfl⟩ := Option.map_eq_some_iff.1 h
        obtain ⟨hoom, hempty4, hempty6, a, l, b, k, h4, h6, hfit, rfl⟩ := parseMapEntry_eq_some.1 hm
        refine ⟨.mapping hwords hname h4 h6 ⟨hempty4, hempty6⟩ hfit, fun h => ?_⟩
        rw [hoom] at h
        cases h
      · cases h
    · rintro ⟨hfile, hoom⟩
      cases hfile with
      | nothing hwords' => cases hwords.symm.trans hwords'
      | mapping hwords' hname h4 h6 hgiven hfit =>
        cases hwords.symm.trans hwords'
        have hmem : g.oom = false := Bool.eq_false_of_not_eq_true fun h => absurd (hoom h) (List.cons_ne_nil _ _)
        rw [if_pos hname, parseMapEntry_eq_some.2 ⟨hmem, hgiven.1, hgiven.2, _, _, _, _, h4, h6, hfit, rfl⟩]
        rfl
  · next hnil hthree =>
    refine iff_of_false (by simp) ?_
    rintro ⟨hfile, -⟩
    cases hfile with
    | nothing hwords => exact hnil hwords
    | mapping hwords => exact hthree _ _ _ hwords

/-- The staged entries after some lines. -/
private theorem foldlM_reloadLine {lines : List (List Char × Nat)} {l l' : List MapStatic} :
    lines.foldlM (fun staged k => reloadLine g libc (k.2 + 1) staged k.1) l = some l' ↔
      ∃ ls, List.Forall₂ (fun k m => reloadLine g libc (k.2 + 1) [] k.1 = some m) lines ls ∧
        l' = ls.flatten.foldl stage l := by
  induction lines generalizing l with
  | nil =>
    rw [List.foldlM_nil]
    constructor
    · intro h
      obtain rfl := Option.some.inj h
      exact ⟨[], .nil, rfl⟩
    · rintro ⟨ls, hls, rfl⟩
      cases hls
      rfl
  | cons k lines ih =>
    rw [List.foldlM_cons, reloadLine_eq, Option.bind_eq_bind, Option.bind_eq_some_iff]
    simp only [Option.map_eq_some_iff, ih]
    constructor
    · rintro ⟨-, ⟨m, hm, rfl⟩, ls, hls, rfl⟩
      refine ⟨m :: ls, .cons hm hls, ?_⟩
      rw [List.flatten_cons, List.foldl_append]
    · rintro ⟨ls, hls, rfl⟩
      cases hls with
      | @cons _ m _ ls hm hls =>
        refine ⟨_, ⟨m, hm, rfl⟩, ls, hls, ?_⟩
        rw [List.flatten_cons, List.foldl_append]

/-- **The first phase of the reload** stages what the file says and no later line conflicts with, when memory lasts. -/
theorem parseMapFile_eq_some {content : List Char} {staged : List MapStatic} :
    parseMapFile g libc content = some staged ↔
      ∃ l, FileSays libc content l ∧ (g.oom → l = []) ∧ staged = survivors l := by
  have hstaged : ∀ l, l.foldl stage [] = survivors l := fun l => by rw [foldl_stage, List.filter_nil, List.nil_append]
  unfold parseMapFile FileSays
  simp only [foldlM_reloadLine, reloadLine_eq_some, hstaged]
  constructor
  · rintro ⟨ls, hls, rfl⟩
    refine ⟨ls.flatten, ⟨ls, hls.imp fun _ _ h => h.1, rfl⟩, fun hoom => ?_, rfl⟩
    refine List.flatten_eq_nil_iff.2 fun m hm => ?_
    obtain ⟨i, hi, rfl⟩ := List.getElem_of_mem hm
    exact (hls.get (hls.length_eq ▸ hi) hi).2 hoom
  · rintro ⟨l, ⟨ls, hls, rfl⟩, hoom, rfl⟩
    refine ⟨ls, ?_, rfl⟩
    rw [List.forall₂_iff_get] at hls ⊢
    refine ⟨hls.1, fun i h₁ h₂ => ⟨hls.2 i h₁ h₂, fun h => ?_⟩⟩
    exact List.flatten_eq_nil_iff.1 (hoom h) _ (List.get_mem _ _)

/-! ### The lists after a reload -/

/-- The entries `l` were added to the state `g`. -/
structure Added (g : Gcfg) (l : List MapStatic) (s : Gcfg) : Prop where
  count : s.nStatics = g.nStatics + l.length
  new : ∀ i (hi : i < l.length), s.statics (g.nStatics + i) = l[i]
  old : ∀ i < g.nStatics, s.statics i = g.statics i
  mem4 : ∀ m, m ∈ s.map4List ↔ m ∈ g.map4List ∨ ∃ i < l.length, m = .static (g.nStatics + i)
  mem6 : ∀ m, m ∈ s.map6List ↔ m ∈ g.map6List ∨ ∃ i < l.length, m = .static (g.nStatics + i)
  pool : s.dynamicPool = g.dynamicPool
  hosts : s.hosts = g.hosts

theorem Added.refl (g : Gcfg) : Added g [] g where
  count := rfl
  new i hi := absurd hi (Nat.not_lt_zero i)
  old _ _ := rfl
  mem4 m := by simp
  mem6 m := by simp
  pool := rfl
  hosts := rfl

/-- One entry more. -/
theorem Added.withStatic {l : List MapStatic} {s : Gcfg} (h : Added g l s) (m : MapStatic) :
    Added g (l ++ [m]) (withStatic s m) := by
  have hn : (Tayga.withStatic s m).nStatics = s.nStatics + 1 := rfl
  have hmem : ∀ (n : MapRef) (q : Prop), (n = .static s.nStatics ∨ q ∨ ∃ i < l.length, n = .static (g.nStatics + i)) ↔
      q ∨ ∃ i < (l ++ [m]).length, n = .static (g.nStatics + i) := by
    intro n q
    rw [List.length_append, List.length_singleton, h.count]
    constructor
    · rintro (rfl | hq | ⟨i, hi, rfl⟩)
      · exact Or.inr ⟨l.length, by omega, rfl⟩
      · exact Or.inl hq
      · exact Or.inr ⟨i, by omega, rfl⟩
    · rintro (hq | ⟨i, hi, rfl⟩)
      · exact Or.inr (Or.inl hq)
      · by_cases hl : i = l.length
        · subst hl
          exact Or.inl rfl
        · exact Or.inr (Or.inr ⟨i, by omega, rfl⟩)
  refine ⟨?_, ?_, ?_, ?_, ?_, h.pool, h.hosts⟩
  · rw [hn, h.count, List.length_append, List.length_singleton, Nat.add_assoc]
  · intro i hi
    by_cases hl : i < l.length
    · rw [statics_withStatic_of_ne (by rw [h.count]; omega), h.new i hl, List.getElem_append_left hl]
    · rw [List.length_append, List.length_singleton] at hi
      obtain rfl : i = l.length := by omega
      rw [← h.count, List.getElem_append_right (Nat.le_refl _)]
      simp only [Nat.sub_self, List.getElem_singleton]
      exact statics_half_self
  · intro i hi
    rw [statics_withStatic_of_ne (by rw [h.count]; omega), h.old i hi]
  · intro n
    rw [mem4_withStatic, h.mem4, hmem]
  · intro n
    rw [mem6_withStatic, h.mem6, hmem]

private theorem sameMaps_flushCache (g : Gcfg) : SameMaps g (flushCache g) := by
  have key : ∀ (l : List Nat) (s : Gcfg), SameMaps s (l.foldl releaseEntry s) := by
    intro l
    induction l with
    | nil => exact SameMaps.refl
    | cons c l ih => exact fun s => (sameMaps_releaseEntry s c).trans (ih _)
  exact key g.cacheActive g

/-- What a successful reload leaves: `l` are the entries of the file that were kept. -/
structure Reloaded (g : Gcfg) (l : List MapStatic) (g' : Gcfg) : Prop where
  -- the entries of the file are the kept ones, in the order of the file
  new : ∀ i (hi : i < l.length), g'.statics (g.nStatics + i) = l[i]
  file4 : ∀ m, m ∈ g'.map4List ∧ isFileMap g' m = true ↔ ∃ i < l.length, m = .static (g.nStatics + i)
  file6 : ∀ m, m ∈ g'.map6List ∧ isFileMap g' m = true ↔ ∃ i < l.length, m = .static (g.nStatics + i)
  -- every other entry is where it was
  other4 : ∀ m, m ∈ g'.map4List ∧ isFileMap g' m = false ↔ m ∈ g.map4List ∧ isFileMap g m = false
  other6 : ∀ m, m ∈ g'.map6List ∧ isFileMap g' m = false ↔ m ∈ g.map6List ∧ isFileMap g m = false
  same4 : ∀ m ∈ g.map4List, isFileMap g m = false → g'.map4 m = g.map4 m
  same6 : ∀ m ∈ g.map6List, isFileMap g m = false → g'.map6 m = g.map6 m
  list4 : ListWf4 g'.map4 g'.map4List
  list6 : ListWf6 g'.map6 g'.map6List
  cache : g'.cacheActive = [] ∧ ∀ h, g'.hashTable4 h = [] ∧ g'.hashTable6 h = []

/-- An entry that was there before stays what it was. -/
private theorem Added.old_entry {l : List MapStatic} {s : Gcfg} (h : Added g l s) {m : MapRef}
    (hm : ∀ i, m = .static i → i < g.nStatics) :
    isFileMap s m = isFileMap g m ∧ s.map4 m = g.map4 m ∧ s.map6 m = g.map6 m := by
  cases m with
  | static i =>
    simp only [isFileMap, Gcfg.map4, Gcfg.map6, h.old i (hm i rfl), and_self]
  | pool => exact ⟨rfl, by simp only [Gcfg.map4, h.pool], rfl⟩
  | host d => exact ⟨rfl, by simp only [Gcfg.map4, h.hosts], by simp only [Gcfg.map6, h.hosts]⟩

/-- The added entries are the file's. -/
private theorem Added.isFileMap_new {l : List MapStatic} {s : Gcfg} (h : Added g l s) (hl : ∀ m ∈ l, FileEntry m)
    {i : Nat} (hi : i < l.length) : isFileMap s (.static (g.nStatics + i)) = true := by
  have he := hl l[i] (List.getElem_mem hi)
  simp [isFileMap, h.new i hi, he.type, he.origin]

/-- A list from which the file's old entries were taken, and to which new ones were added. -/
private theorem file_iff {k k' : List MapRef} {n : Nat} {old new : MapRef → Bool}
    (hmem : ∀ m, m ∈ k' ↔ (m ∈ k ∧ old m = false) ∨ ∃ i < n, m = .static (g.nStatics + i))
    (hold : ∀ m ∈ k, new m = old m) (hnew : ∀ i < n, new (.static (g.nStatics + i)) = true) (m : MapRef) :
    (m ∈ k' ∧ new m = true ↔ ∃ i < n, m = .static (g.nStatics + i)) ∧
    (m ∈ k' ∧ new m = false ↔ m ∈ k ∧ old m = false) := by
  rw [hmem]
  refine ⟨⟨?_, ?_⟩, ⟨?_, ?_⟩⟩
  · rintro ⟨⟨hk, ho⟩ | he, hf⟩
    · rw [hold m hk, ho] at hf
      cases hf
    · exact he
  · rintro ⟨i, hi, rfl⟩
    exact ⟨Or.inr ⟨i, hi, rfl⟩, hnew i hi⟩
  · rintro ⟨ho | ⟨i, hi, rfl⟩, hf⟩
    · exact ho
    · rw [hnew i hi] at hf
      cases hf
  · intro ho
    exact ⟨Or.inl ho, (hold m ho.1).trans ho.2⟩

/-- Publishing staged entries replaces the file's old entries by those that conflict with no other mapping. -/
private theorem reloaded_publishMaps (h : Base g) {l : List MapStatic} (hl : Staged l) :
    Reloaded g (l.filter fun m => !conflicts g m) (publishMaps g l) := by
  have hdrop := dropFileMaps_eq h.tables
  have hns : (dropFileMaps g).nStatics = g.nStatics := by rw [hdrop]; rfl
  have hst : (dropFileMaps g).statics = g.statics := by rw [hdrop]; rfl
  have hb₀ := h.dropFileMaps
  obtain ⟨hb, ha⟩ := linkKept_induct (P := fun l s => Base s ∧ Added (dropFileMaps g) l s)
    (fun _ _ hs => hs.1.tables) (fun _ _ m hs hc => ⟨hs.1.withStatic hc, hs.2.withStatic m⟩) hl h.tables
    ⟨hb₀, Added.refl _⟩
  have hentry : ∀ m ∈ l.filter fun m => !conflicts g m, FileEntry m := fun m hm => hl.entry m (List.mem_filter.1 hm).1
  unfold publishMaps
  simp only []
  generalize (l.filter fun m => !conflicts g m) = k at ha hb hentry ⊢
  generalize k.foldl linkStatic (dropFileMaps g) = s at ha hb ⊢
  have hsm := sameMaps_flushCache s
  have hbf : Base (flushCache s) := flushCache_induct (fun _ _ h hc => h.releaseEntry hc) hb.cache.nodup_active hb
  -- the entries that were in the lists before the reload
  have hold : ∀ m, m ∈ g.map4List ∨ m ∈ g.map6List →
      isFileMap s m = isFileMap g m ∧ s.map4 m = g.map4 m ∧ s.map6 m = g.map6 m := by
    intro m hm
    have := ha.old_entry (m := m) fun i hi => by
      subst hi
      rw [hns]
      exact h.tables.static_lt i (hm.elim id (h.tables.pair64 i))
    rw [hdrop, map4_relist, map6_relist] at this
    cases m <;> exact this
  have hnew : ∀ i < k.length, isFileMap s (.static (g.nStatics + i)) = true := by
    intro i hi
    rw [← hns]
    exact ha.isFileMap_new hentry hi
  have hmem4 : ∀ m, m ∈ s.map4List ↔ (m ∈ g.map4List ∧ isFileMap g m = false) ∨
      ∃ i < k.length, m = .static (g.nStatics + i) := by
    intro m
    rw [ha.mem4, mem4_dropFileMaps h.tables, hns]
  have hmem6 : ∀ m, m ∈ s.map6List ↔ (m ∈ g.map6List ∧ isFileMap g m = false) ∨
      ∃ i < k.length, m = .static (g.nStatics + i) := by
    intro m
    rw [ha.mem6, mem6_dropFileMaps h.tables, hns]
  have hfile : isFileMap (flushCache s) = isFileMap s := by
    funext m
    cases m <;> simp only [isFileMap, hsm.statics]
  have h4 := file_iff hmem4 (fun m hm => (hold m (Or.inl hm)).1) hnew
  have h6 := file_iff hmem6 (fun m hm => (hold m (Or.inr hm)).1) hnew
  refine ⟨?_, ?_, ?_, ?_, ?_, ?_, ?_, hbf.tables.list4, hbf.tables.list6, cacheActive_flushCache s, ?_⟩
  · intro i hi
    rw [hsm.statics, ← hns]
    exact ha.new i hi
  · rw [hfile, hsm.map4List]
    exact fun m => (h4 m).1
  · rw [hfile, hsm.map6List]
    exact fun m => (h6 m).1
  · rw [hfile, hsm.map4List]
    exact fun m => (h4 m).2
  · rw [hfile, hsm.map6List]
    exact fun m => (h6 m).2
  · rw [hsm.map4]
    exact fun m hm _ => (hold m (Or.inl hm)).2.1
  · rw [hsm.map6]
    exact fun m hm _ => (hold m (Or.inr hm)).2.2
  · intro b
    have hc := cacheActive_flushCache s
    refine ⟨List.eq_nil_iff_forall_not_mem.2 fun c hm => ?_, List.eq_nil_iff_forall_not_mem.2 fun c hm => ?_⟩
    · have := ((hbf.cache.hash4 b c).1 hm).1
      rw [hc] at this
      cases this
    · have := ((hbf.cache.hash6 b c).1 hm).1
      rw [hc] at this
      cases this

/-! ### The law -/

/-- What a reload does.  It succeeds if there is no map file, or the file can be read, every line of it says nothing or
a mapping, and memory lasts for these.  An error leaves the state as it was; success publishes the mappings of the file
that survive the later ones and conflict with no mapping the file does not own. -/
structure ReloadLaw (g : Gcfg) (libc : Libc) (file : Option MapFileRead) : Prop where
  hok : (addrmapReload g libc file).1 = .ok () ↔ g.mapFile = [] ∨
    ∃ f l, file = some f ∧ f.ioError = false ∧ FileSays libc f.content l ∧ (g.oom → l = [])
  herror : (addrmapReload g libc file).1 ≠ .ok () → (addrmapReload g libc file).2 = g
  hnone : g.mapFile = [] → (addrmapReload g libc file).2 = g
  hpublish : g.mapFile ≠ [] → (addrmapReload g libc file).1 = .ok () →
    ∃ f l, file = some f ∧ FileSays libc f.content l ∧
      Reloaded g ((survivors l).filter fun m => !conflicts g m) (addrmapReload g libc file).2

private theorem reloadLaw_of_base (h : Base g) (file : Option MapFileRead) : ReloadLaw g libc file := by
  by_cases hm : g.mapFile = []
  · have e : addrmapReload g libc file = (.ok (), g) := if_pos hm
    refine ⟨?_, fun _ => by rw [e], fun _ => by rw [e], fun hne => absurd hm hne⟩
    rw [e]
    exact iff_of_true rfl (.inl hm)
  -- what the second phase makes of the staged entries
  have hcases : (∃ f l, file = some f ∧ f.ioError = false ∧ FileSays libc f.content l ∧ (g.oom → l = []) ∧
        addrmapReload g libc file = (.ok (), publishMaps g (survivors l))) ∨
      (¬∃ f l, file = some f ∧ f.ioError = false ∧ FileSays libc f.content l ∧ (g.oom → l = [])) ∧
        addrmapReload g libc file = (.error .reject, g) := by
    unfold addrmapReload
    rw [if_neg hm]
    cases file with
    | none =>
      refine .inr ⟨?_, rfl⟩
      rintro ⟨f, l, hf, -⟩
      cases hf
    | some f =>
      dsimp only
      cases hp : parseMapFile g libc f.content with
      | none =>
        refine .inr ⟨?_, rfl⟩
        rintro ⟨f', l, hf, -, hfile, hoom⟩
        cases hf
        rw [parseMapFile_eq_some.2 ⟨l, hfile, hoom, rfl⟩] at hp
        cases hp
      | some staged =>
        obtain ⟨l, hfile, hoom, rfl⟩ := parseMapFile_eq_some.1 hp
        dsimp only
        cases hio : f.ioError with
        | true =>
          refine .inr ⟨?_, if_pos rfl⟩
          rintro ⟨f', -, hf, hf', -⟩
          cases hf
          rw [hio] at hf'
          cases hf'
        | false => exact .inl ⟨f, l, rfl, hio, hfile, hoom, if_neg Bool.false_ne_true⟩
  rcases hcases with ⟨f, l, hf, hio, hfile, hoom, e⟩ | ⟨hnot, e⟩
  · refine ⟨?_, fun hne => absurd (by rw [e]) hne, fun h => absurd h hm, fun _ _ => ⟨f, l, hf, hfile, ?_⟩⟩
    · rw [e]
      exact iff_of_true rfl (.inr ⟨f, l, hf, hio, hfile, hoom⟩)
    · rw [e]
      exact reloaded_publishMaps h (staged_parseMapFile (parseMapFile_eq_some.2 ⟨l, hfile, hoom, rfl⟩))
  · have hne : (addrmapReload g libc file).1 ≠ .ok () := by
      rw [e]
      exact fun h => by cases h
    exact ⟨iff_of_false hne fun h => h.elim hm hnot, fun _ => by rw [e], fun h => absurd h hm,
      fun _ hok => absurd hok hne⟩

/-- **A reload is a transaction in every state reached** from a startup. -/
theorem reload_law_run {e : Endian} {now : Int} {content : List Char} {sd : Option (List Char)}
    {rand : Nat → BitVec 32} (hs : startup libc e now content sd rand = .ok g) (es : List PoolEvent)
    (file : Option MapFileRead) : ReloadLaw (Run.run (poolStep libc) (.start g) es).map libc file :=
  reloadLaw_of_base (base_poolRun hs es) file

/-- A file with three mappings: the last one replaces the first, and the second conflicts with the translator's own. -/
def sampleFile : MapFileRead :=
  ⟨"map 198.18.0.4 2001:db8:2::
map 192.0.2.1 2001:db8::99 # own
map 169.254.0.0/16 2001:db8:2::/112
".toList, false⟩

/-- The last one is kept and found. -/
theorem reload_law_run_sample : ∃ g, sampleStart = .ok g ∧
    let s := (Run.run (poolStep sampleLibc) (.start g) sampleLoad).map
    ReloadLaw s sampleLibc (some sampleFile) ∧ (addrmapReload s sampleLibc (some sampleFile)).1 = .ok () ∧
    (((addrmapReload s sampleLibc (some sampleFile)).2.map4List.filter
        (isFileMap (addrmapReload s sampleLibc (some sampleFile)).2)).map fun m =>
      ((addrmapReload s sampleLibc (some sampleFile)).2.map4 m).addr) = [0xa9fe0000] := by
  obtain ⟨g, hs, hok, hkept⟩ := start_any (r := sampleStart) (p := fun g =>
    let r := addrmapReload (Run.run (poolStep sampleLibc) (.start g) sampleLoad).map sampleLibc (some sampleFile)
    r.1 = .ok () ∧ ((r.2.map4List.filter (isFileMap r.2)).map fun m => (r.2.map4 m).addr) = [0xa9fe0000])
    (by decide +kernel)
  exact ⟨g, hs, reload_law_run hs sampleLoad _, hok, hkept⟩

end Tayga
