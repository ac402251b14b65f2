import Tayga.LoadLaw
import Tayga.TextProofs

/-!
# The dynamic map file survives a restart

What `write_to_file` prints for a snapshot `load_dynamic` reads back, line by line (`dynamicRows_writeToFile`), and in
whatever order the lines come the leases and the free runs are those of the snapshot.  The exception are leases whose
time of last use is not positive: the loader takes their lines for malformed ones (`dynamic_round_trip`).
-/

namespace Tayga

open FreeRuns

variable {g h s : Gcfg} {p q : DynamicPool} {libc : Libc} {out : Printer}

/-! ### Printing and reading back -/

/-- What the C library prints for a row is read back as the row. -/
structure Printer.Inverts (out : Printer) (libc : Libc) (r : DynamicSnapshot) : Prop where
  pton4 : libc.inetPton4 (out.inetNtop4 r.addr4) = some r.addr4
  pton6 : libc.inetPton6 (out.inetNtop6 r.addr6) = some r.addr6
  strtol : strtol (out.decimal r.lastUse) = ⟨r.lastUse, [], false⟩
  token4 : Token (out.inetNtop4 r.addr4)
  token6 : Token (out.inetNtop6 r.addr6)
  tokenTime : Token (out.decimal r.lastUse)
  -- an address is no comment
  hash : (out.inetNtop4 r.addr4).head? ≠ some '#'
  -- `INET_ADDRSTRLEN`, `INET6_ADDRSTRLEN`, and the digits of a 64-bit integer
  length4 : (out.inetNtop4 r.addr4).length < 16
  length6 : (out.inetNtop6 r.addr6).length < 46
  lengthTime : (out.decimal r.lastUse).length ≤ 20

private theorem Token.no_newline {t : List Char} (h : Token t) : '\n' ∉ t := fun hm => by
  have := h.plain '\n' hm
  simp [isDelim] at this

/-- A printed row without its newline. -/
def rowText (out : Printer) (r : DynamicSnapshot) : List Char :=
  out.inetNtop4 r.addr4 ++ '\t' :: (out.inetNtop6 r.addr6 ++ '\t' :: out.decimal r.lastUse)

private theorem rowLine_append (r : DynamicSnapshot) (t : List Char) :
    rowLine out r ++ t = rowText out r ++ '\n' :: t := by
  simp [rowLine, rowText]

private theorem rowLine_eq (r : DynamicSnapshot) : rowLine out r = rowText out r ++ ['\n'] := by
  simp [rowLine, rowText]

/-- The loader reads a printed row back if its time is positive; else it takes the line for a malformed one. -/
private theorem dynamicLine_rowLine {r : DynamicSnapshot} (hr : out.Inverts libc r) :
    dynamicLine libc (rowLine out r) = if 0 < r.lastUse then some r else none := by
  have hnul : '\x00' ∉ rowLine out r := by
    simp only [rowLine, List.mem_append, List.mem_cons, List.not_mem_nil, or_false, not_or]
    exact ⟨hr.token4.no_nul, by decide, hr.token6.no_nul, by decide, hr.tokenTime.no_nul, by decide⟩
  have hlen : (rowLine out r).length ≠ 511 := by
    have := hr.length4
    have := hr.length6
    have := hr.lengthTime
    simp only [rowLine, List.length_append, List.length_cons, List.length_nil]
    omega
  have hlong : tooLong (rowLine out r) = false := by
    unfold tooLong
    rw [cstr_of_no_nul hnul]
    simpa using hlen
  have htok : strtok [] (rowLine out r) = [out.inetNtop4 r.addr4, out.inetNtop6 r.addr6, out.decimal r.lastUse] := by
    unfold rowLine
    rw [strtok_token hr.token4 (by decide), strtok_token hr.token6 (by decide), strtok_token hr.tokenTime (by decide)]
    rfl
  unfold dynamicLine
  rw [hlong, cstr_of_no_nul hnul, htok]
  simp only [Bool.false_eq_true, if_false, if_neg hr.hash, hr.pton4, hr.pton6, hr.strtol, ne_eq, not_true_eq_false,
    or_false]
  by_cases ht : 0 < r.lastUse
  · rw [if_pos ht, if_neg (by omega)]
  · rw [if_neg ht, if_pos (by omega)]

private theorem rowText_spec {r : DynamicSnapshot} (hr : out.Inverts libc r) :
    '\n' ∉ rowText out r ∧ (rowText out r).length < 511 := by
  refine ⟨?_, ?_⟩
  · simp only [rowText, List.mem_append, List.mem_cons, not_or]
    exact ⟨hr.token4.no_newline, by decide, hr.token6.no_newline, by decide, hr.tokenTime.no_newline⟩
  · have := hr.length4
    have := hr.length6
    have := hr.lengthTime
    simp only [rowText, List.length_append, List.length_cons]
    omega

/-- The lines of the printed rows. -/
private theorem fileLines_rows {rows : List DynamicSnapshot} (hr : ∀ r ∈ rows, out.Inverts libc r) :
    fileLines (rows.flatMap (rowLine out)) = rows.map (rowLine out) := by
  induction rows with
  | nil => rfl
  | cons r rows ih =>
    obtain ⟨h1, h2⟩ := rowText_spec (hr r List.mem_cons_self)
    rw [List.flatMap_cons, rowLine_append, fileLines_line h1 h2, ih fun r h => hr r (List.mem_cons_of_mem _ h),
      List.map_cons, rowLine_eq]

/-- A line whose first token starts with `#` is a comment. -/
private theorem dynamicLine_comment {t : List Char} (ht : Token ('#' :: t)) (u : List Char) :
    dynamicLine libc ('#' :: t ++ ' ' :: u) = none := by
  have hnul : '\x00' ∉ '#' :: t ++ [' '] := by
    rw [List.mem_append, not_or]
    exact ⟨ht.no_nul, by decide⟩
  have hcstr : cstr ('#' :: t ++ ' ' :: u) = '#' :: t ++ ' ' :: cstr u := by
    rw [List.append_cons, cstr_append hnul, ← List.append_cons]
  unfold dynamicLine
  rw [hcstr, strtok_token ht (by decide)]
  split
  · rfl
  · rcases strtok [] (cstr u) with _ | ⟨a, _ | ⟨b, _ | ⟨c, l⟩⟩⟩ <;> rfl

/-- **The loader reads the rows with a positive time back from a written file**, in their order. -/
theorem dynamicRows_writeToFile {rows : List DynamicSnapshot} (hr : ∀ r ∈ rows, out.Inverts libc r) {writtenAt : Int}
    (hn : '\n' ∉ out.timestamp writtenAt) (hl : (out.timestamp writtenAt).length < 64) :
    dynamicRows libc (writeToFile out rows writtenAt) = rows.filter fun r => 0 < r.lastUse := by
  have hash : Token ('#' :: "##".toList) := .of_all (by decide) (by decide)
  have e : writeToFile out rows writtenAt = "### tayga dynamic map database".toList ++ '\n' ::
      (("### Last written: ".toList ++ out.timestamp writtenAt) ++ '\n' ::
        ([] ++ '\n' :: rows.flatMap (rowLine out))) := by
    have hline : "### tayga dynamic map database\n".toList = "### tayga dynamic map database".toList ++ ['\n'] := by
      decide +kernel
    have hsplit : ∀ a b t x : List Char, (a ++ ['\n']) ++ (b ++ (t ++ '\n' :: '\n' :: x)) =
        a ++ '\n' :: ((b ++ t) ++ '\n' :: ([] ++ '\n' :: x)) := by simp
    exact (congrArg (· ++ _) hline).trans (hsplit _ _ _ _)
  unfold dynamicRows
  rw [e, fileLines_line (by decide) (by decide), fileLines_line ?_ ?_, fileLines_line (by simp) (by simp),
    fileLines_rows hr]
  · have h1 : dynamicLine libc ("### tayga dynamic map database".toList ++ ['\n']) = none :=
      dynamicLine_comment (t := "##".toList) hash ("tayga dynamic map database".toList ++ ['\n'])
    have h2 : dynamicLine libc ("### Last written: ".toList ++ out.timestamp writtenAt ++ ['\n']) = none :=
      dynamicLine_comment (t := "##".toList) hash ("Last written: ".toList ++ out.timestamp writtenAt ++ ['\n'])
    have h3 : dynamicLine libc ([] ++ ['\n']) = none := rfl
    rw [List.filterMap_cons, List.filterMap_cons, List.filterMap_cons, h1, h2, h3]
    simp only []
    clear e h1 h2 h3
    induction rows with
    | nil => rfl
    | cons r rows ih =>
      rw [List.map_cons, List.filterMap_cons, dynamicLine_rowLine (hr r List.mem_cons_self), List.filter_cons,
        ih fun r h => hr r (List.mem_cons_of_mem _ h)]
      by_cases ht : 0 < r.lastUse <;> simp [ht]
  · rw [List.mem_append, not_or]
    exact ⟨by decide, hn⟩
  · have : "### Last written: ".toList.length = 18 := by decide
    rw [List.length_append]
    omega

/-! ### Loading the rows of a snapshot -/

/-- Admissible rows with distinct IPv4 addresses are all accepted. -/
private theorem accepted_eq {rows : List DynamicSnapshot} (ha : ∀ r ∈ rows, Admissible h q r)
    (hd : rows.Pairwise fun r s => r.addr4 ≠ s.addr4) : accepted h q rows = rows.reverse := by
  have key : ∀ (rows seen : List DynamicSnapshot), (∀ r ∈ rows, Admissible h q r) →
      (rows.Pairwise fun r s => r.addr4 ≠ s.addr4) → (∀ r ∈ rows, ∀ s ∈ seen, s.addr4 ≠ r.addr4) →
      rows.foldl (admitRow h q) seen = rows.reverse ++ seen := by
    intro rows
    induction rows with
    | nil => exact fun _ _ _ _ => rfl
    | cons r rows ih =>
      intro seen ha hd hs
      rw [List.pairwise_cons] at hd
      rw [List.foldl_cons, admitRow, if_pos ⟨ha r List.mem_cons_self, hs r List.mem_cons_self⟩,
        ih _ (fun t ht => ha t (List.mem_cons_of_mem _ ht)) hd.2, List.reverse_cons, List.append_assoc,
        List.singleton_append]
      intro t ht u hu
      rcases List.mem_cons.1 hu with rfl | hu
      · exact hd.1 t ht
      · exact hs t (List.mem_cons_of_mem _ ht) u hu
  have := key rows [] ha hd (by simp)
  rwa [List.append_nil] at this

/-- No static map of the state covers an address of the row. -/
structure Uncovered (h : Gcfg) (r : DynamicSnapshot) : Prop where
  static4 : ∀ i, .static i ∈ h.map4List → (h.statics i).map4.covers r.addr4 = true →
    (h.statics i).map4.prefixLen < (h.map4 .pool).prefixLen
  static6 : ∀ i, .static i ∈ h.map6List → (h.statics i).map6.covers r.addr6 = false

private theorem leases_of_pool (hp : g.dynamicPool = some p) {d : Nat} :
    d ∈ g.leases ↔ d ∈ p.mappedList ∨ d ∈ p.dormantList := by
  rw [Gcfg.leases, mapped_of_pool hp, dormant_of_pool hp, List.mem_append]

/-- The row of a lease is admissible under the same pool when no static map covers its addresses. -/
private theorem Base.admissible_snapshot (hb : Base g) (hp : g.dynamicPool = some p) (hh : Base h) (hl : h.leases = [])
    (hq : h.dynamicPool = some q) (hpq : q.map4 = p.map4) {d : Nat} (hd : d ∈ g.leases)
    (hu : Uncovered h (snapshotRow g d)) : Admissible h q (snapshotRow g d) := by
  have hruns := hb.runs p hp
  have hd' := (leases_of_pool hp).1 hd
  have hnone : ∀ m, m ∈ h.map4List ∨ m ∈ h.map6List → ∀ c, m ≠ .host c := by
    rintro m hm c rfl
    have : c ∈ h.leases := List.mem_append_left _ (hm.elim (hh.tables.host4 c) (hh.tables.host6 c))
    rw [hl] at this
    cases this
  have hb4 := hruns.chain.bounds _ (List.mem_map_of_mem (hruns.lease_mem hd'))
  have hv4 : (g.freeAddr (.host d)).addr = (g.v4 d).toNat := hruns.addr d hd'
  have hrow : (snapshotRow g d).addr4 = g.v4 d := rfl
  simp only [Gcfg.run] at hb4
  refine ⟨?_, hb.valid d (List.mem_append.1 hd), ?_, ?_⟩
  · refine hh.tables.list4.find_eq_some.2 ⟨hh.tables.pool4.2 (by rw [hq]; rfl), ?_, ?_⟩
    · rw [Gcfg.map4, hq]
      simp only [hpq]
      exact (hb.covers_pool hp).2 ⟨by rw [hrow, ← hv4]; exact hb4.1, by rw [hrow, ← hv4]; omega⟩
    · intro m hm hc
      cases m with
      | static i => exact Nat.le_of_lt (hu.static4 i hm hc)
      | pool => exact Nat.le_refl _
      | host c => exact absurd rfl (hnone _ (Or.inl hm) c)
  · refine ListWf6.find_eq_none.2 fun m hm => ?_
    cases m with
    | static i => exact hu.static6 i hm
    | pool => exact absurd hm hh.tables.pool6
    | host c => exact absurd rfl (hnone _ (Or.inr hm) c)
  · intro he
    rw [hpq] at he
    have := hruns.start_inj (hruns.lease_mem hd') (List.mem_of_head? hruns.head) (by
      simp only [Gcfg.run]
      rw [hv4, hruns.head_addr, ← he]
      rfl)
    cases this

/-- The rows of a snapshot have distinct IPv4 addresses. -/
private theorem Base.pairwise_snapshot (hb : Base g) (hp : g.dynamicPool = some p) {rows : List DynamicSnapshot}
    (hr : rows.Perm (g.leases.map (snapshotRow g))) : rows.Pairwise fun r s => r.addr4 ≠ s.addr4 := by
  refine (hr.pairwise_iff fun hne => Ne.symm hne).2 ?_
  rw [List.pairwise_map]
  refine hb.nodup_leases.imp_of_mem fun {d e} hd he hne hv => hne ?_
  exact (hb.runs p hp).v4_inj ((leases_of_pool hp).1 hd) ((leases_of_pool hp).1 he) hv

private theorem foldl_max_le {l : List Nat} {f : Nat → Int} {t n : Int} (ht : t ≤ n) (hl : ∀ d ∈ l, f d ≤ n) :
    l.foldl (fun t d => max t (f d)) t ≤ n := by
  induction l generalizing t with
  | nil => exact ht
  | cons d l ih =>
    exact ih (Int.max_le.2 ⟨ht, hl d List.mem_cons_self⟩) fun e he => hl e (List.mem_cons_of_mem _ he)

/-- Leases that are not dated in the future keep their times. -/
private theorem hosts_settleLeases (ht : ∀ d ∈ s.dormant, 0 < (s.hosts d).lastUse ∧ (s.hosts d).lastUse ≤ s.now) :
    (settleLeases s).hosts = s.hosts := by
  unfold settleLeases
  split
  · rfl
  · rename_i p hp
    rw [dormant_of_pool hp] at ht
    simp only []
    cases hl : p.dormantList with
    | nil => split <;> rfl
    | cons d l =>
      rw [hl] at ht
      have h0 := ht d List.mem_cons_self
      rw [if_neg (Int.not_lt.2 (foldl_max_le (by omega) fun e he => (ht e he).2))]
      exact wakeLeases_induct (P := fun s' => s'.hosts = s.hosts)
        (fun s' e he _ => (hosts_moveToMapped e).trans he) rfl _

/-! ### The round trip -/

/-- The state `s` has exactly the leases of the rows, and the free runs of `g`. -/
structure Restored (g : Gcfg) (rows : List DynamicSnapshot) (s : Gcfg) : Prop where
  leases : (s.leases.map (leaseRow s)).Perm rows
  runs : ∀ p q, g.dynamicPool = some p → s.dynamicPool = some q → q.freeList.map s.run = p.freeList.map g.run

/-- Loading rows into a state without leases leaves the leases of the rows. -/
private theorem leases_loadRows (hh : Base h) (hl : h.leases = []) (hq : h.dynamicPool = some q) (ho : h.oom = false)
    {rows : List DynamicSnapshot} (ha : ∀ r ∈ rows, Admissible h q r)
    (hd : rows.Pairwise fun r s => r.addr4 ≠ s.addr4) {time : Int}
    (ht : ∀ r ∈ rows, 0 < r.lastUse ∧ r.lastUse ≤ time) :
    let s := settleLeases { loadRows h rows with now := time }
    (s.leases.map (leaseRow s)).Perm rows ∧ s.map4 .pool = q.map4 := by
  obtain ⟨hm, hdor⟩ := List.append_eq_nil_iff.1 hl
  have hload := loading_loadRows hh hq hm hdor ho rows
  rw [accepted_eq ha hd] at hload
  have hs := SameLeases.settleLeases (hload.base.tick time)
  have hhosts := hosts_settleLeases (s := { loadRows h rows with now := time }) fun d hd' => by
    have := hload.rows.mem_iff.1 (List.mem_map_of_mem hd')
    exact ht _ (List.mem_reverse.1 this)
  refine ⟨?_, ?_⟩
  · have hl' : ({ loadRows h rows with now := time } : Gcfg).leases = (loadRows h rows).dormant := by
      change (loadRows h rows).leases = _
      rw [Gcfg.leases, hload.mapped, List.nil_append]
    have hrow : leaseRow (settleLeases { loadRows h rows with now := time }) = leaseRow (loadRows h rows) := by
      funext d
      simp only [leaseRow, Gcfg.v4, Gcfg.v6, hhosts]
    rw [hrow]
    refine (hs.leases.map _).trans ?_
    rw [hl']
    exact hload.rows.trans (List.reverse_perm rows)
  · have hpool := hload.same.pool
    rw [Gcfg.map4.eq_def h, hq] at hpool
    exact hs.pool.trans hpool

/-- The free runs are determined by the leases. -/
private theorem Base.runs_eq (hb : Base g) (hp : g.dynamicPool = some p) (hs : Base s) (hq : s.dynamicPool = some q)
    (hpq : q.map4 = p.map4) (hl : ∀ a, a ∈ s.leases.map s.v4 ↔ a ∈ g.leases.map g.v4) :
    q.freeList.map s.run = p.freeList.map g.run := by
  have hc := (hs.runs q hq).chain
  rw [hpq] at hc
  refine hc.eq_of_starts (hb.runs p hp).chain fun n => ?_
  have key : ∀ {t : Gcfg} {r : DynamicPool}, Base t → t.dynamicPool = some r →
      (n ∈ (r.freeList.map t.run).map Prod.fst ↔ n = r.map4.addr.toNat ∨ ∃ a ∈ t.leases.map t.v4, a.toNat = n) := by
    intro t r ht hr
    rw [List.map_map, List.mem_map]
    refine (ht.runs r hr).starts.trans (or_congr_right ?_)
    simp only [List.mem_map, leases_of_pool hr, exists_exists_and_eq_and]
  rw [key hs hq, key hb hp, hpq]
  simp only [hl]

/-- **What was written is restored exactly when every time of last use is positive**: for every state reached from a
startup, every order of its snapshot, and every later startup with the same pool in which no static map covers an
address of a lease, by a clock not before the stored times. -/
theorem dynamic_round_trip {e e' : Endian} {now now' : Int} {content content' : List Char} {sd sd' : Option (List Char)}
    {rand rand' : Nat → BitVec 32} {g₀ h₀ : Gcfg} (hs : startup libc e now content sd rand = .ok g₀)
    (es : List PoolEvent) (hp : (Run.run (poolStep libc) (.start g₀) es).map.dynamicPool = some p)
    (hs' : startup libc e' now' content' sd' rand' = .ok h₀) {maps : Option MapFileRead}
    (hr : addrmapReload h₀ libc maps = (.ok (), h)) (hq : h.dynamicPool = some q) (hpq : q.map4 = p.map4)
    {rows : List DynamicSnapshot} (hrows : rows.Perm ((Run.run (poolStep libc) (.start g₀) es).map.leases.map
      (snapshotRow (Run.run (poolStep libc) (.start g₀) es).map)))
    (hu : ∀ r ∈ rows, Uncovered h r) (hout : ∀ r ∈ rows, out.Inverts libc r) {writtenAt : Int}
    (hn : '\n' ∉ out.timestamp writtenAt) (hl : (out.timestamp writtenAt).length < 64) {time : Int}
    (ht : ∀ r ∈ rows, r.lastUse ≤ time) :
    Restored (Run.run (poolStep libc) (.start g₀) es).map rows
      (loadDynamic { h with oom := false } libc (some (writeToFile out rows writtenAt)) time) ↔
    ∀ r ∈ rows, 0 < r.lastUse := by
  generalize hg : (Run.run (poolStep libc) (.start g₀) es).map = g at hp hrows ⊢
  have hb : Base g := hg ▸ base_poolRun hs es
  obtain ⟨hi, hnone⟩ := booted hs' hr
  have hadm : ∀ r ∈ rows, Admissible { h with oom := false } q r := by
    intro r hr'
    obtain ⟨d, hd, rfl⟩ := List.mem_map.1 (hrows.mem_iff.1 hr')
    exact hb.admissible_snapshot hp (hi.alloc false).base hnone hq hpq hd ⟨(hu _ hr').static4, (hu _ hr').static6⟩
  have hdist := hb.pairwise_snapshot hp hrows
  have hfil : ∀ r ∈ rows.filter fun r => decide (0 < r.lastUse), r ∈ rows ∧ 0 < r.lastUse := fun r hr' =>
    ⟨(List.mem_filter.1 hr').1, by simpa using (List.mem_filter.1 hr').2⟩
  have hload := leases_loadRows (hi.alloc false).base hnone hq rfl (fun r hr' => hadm r (hfil r hr').1)
    (hdist.filter fun r => decide (0 < r.lastUse))
    fun r hr' => ⟨(hfil r hr').2, ht r (hfil r hr').1⟩
  have e : loadDynamic { h with oom := false } libc (some (writeToFile out rows writtenAt)) time =
      settleLeases { loadRows { h with oom := false } (rows.filter fun r => decide (0 < r.lastUse)) with now := time
          } := by
    unfold loadDynamic
    simp only [hq, dynamicRows_writeToFile hout hn hl]
  have hbase : Base (loadDynamic { h with oom := false } libc (some (writeToFile out rows writtenAt)) time) :=
    (hi.alloc false).base.loadDynamic _ _
  rw [e] at hbase ⊢
  constructor
  · intro hrest r hr'
    exact (hfil r ((hload.1.symm.trans hrest.leases).mem_iff.2 hr')).2
  · intro hpos
    have hall : (rows.filter fun r => decide (0 < r.lastUse)) = rows :=
      List.filter_eq_self.2 fun r hr' => by simpa using hpos r hr'
    rw [hall] at hload hbase ⊢
    refine ⟨hload.1, fun p' q' hp' hq' => ?_⟩
    rw [hp] at hp'
    cases hp'
    have hmap := hload.2
    rw [Gcfg.map4, hq'] at hmap
    refine hb.runs_eq hp hbase hq' (hmap.trans hpq) fun a => ?_
    have h4 := (hload.1.trans hrows).map DynamicSnapshot.addr4
    rw [List.map_map, List.map_map] at h4
    exact h4.mem_iff

/-- What the C library prints for the lease of `198.18.0.5`. -/
def samplePrinter : Printer where
  inetNtop4 a := if a = 0xc6120005 then "198.18.0.5".toList else "192.0.2.1".toList
  inetNtop6 x := if x = 0x20010db8000000000000000000000099 then "2001:db8::99".toList else "::".toList
  decimal t := (if t < 0 then ['-'] else []) ++ Nat.toDigits 10 t.natAbs
  timestamp _ := "1970-01-01 00:16:40 UTC".toList

/-- A row for that lease. -/
def sampleRow (t : Int) : DynamicSnapshot := ⟨0xc6120005, 0x20010db8000000000000000000000099, t⟩

private theorem inverts_sampleRow : samplePrinter.Inverts sampleLibc (sampleRow 999) where
  pton4 := by decide
  pton6 := by decide
  strtol := by decide
  token4 := .of_all (by decide) (by decide)
  token6 := .of_all (by decide) (by decide)
  tokenTime := .of_all (by decide) (by decide)
  hash := by decide
  length4 := by decide
  length6 := by decide
  lengthTime := by decide

/-- A file with that lease. -/
def sampleMap : List Char := "198.18.0.5\t2001:db8::99\t999\n".toList

theorem dynamic_round_trip_sample : ∃ g, sampleData = .ok g ∧
    Restored (Run.run (poolStep sampleLibc) (.start g) [.load (some sampleMap) 1000]).map [sampleRow 999]
      (loadDynamic { g with oom := false } sampleLibc (some (writeToFile samplePrinter [sampleRow 999] 1000)) 1000)
          := by
  obtain ⟨g, hs, hm, hpool, hrows, h4, h6⟩ := start_any (r := sampleData) (p := fun g =>
    let s := (Run.run (poolStep sampleLibc) (.start g) [.load (some sampleMap) 1000]).map
    g.mapFile = [] ∧ (s.dynamicPool.any fun p => g.dynamicPool.any fun q => q.map4 = p.map4) ∧
      s.leases.map (snapshotRow s) = [sampleRow 999] ∧
      (∀ i < g.nStatics, .static i ∈ g.map4List → (g.statics i).map4.covers (sampleRow 999).addr4 = true →
        (g.statics i).map4.prefixLen < (g.map4 .pool).prefixLen) ∧
      ∀ i < g.nStatics, .static i ∈ g.map6List → (g.statics i).map6.covers (sampleRow 999).addr6 = false)
    (by decide +kernel)
  obtain ⟨p, hp, hq⟩ := Option.any_eq_true _ _ |>.1 hpool
  obtain ⟨q, hq, hpq⟩ := Option.any_eq_true _ _ |>.1 hq
  have ht := (startup_inv hs).base.tables
  have hr : addrmapReload g sampleLibc none = (.ok (), g) := by
    unfold addrmapReload
    rw [if_pos hm]
  refine ⟨g, hs, (dynamic_round_trip hs _ hp hs hr hq (by simpa using hpq) (.of_eq hrows.symm) ?_ ?_ (by decide)
    (by decide) ?_).2 ?_⟩
  · intro r hr
    rw [List.mem_singleton.1 hr]
    exact ⟨fun i hi => h4 i (ht.static_lt i hi) hi, fun i hi => h6 i (ht.static_lt i (ht.pair64 i hi)) hi⟩
  · intro r hr
    rw [List.mem_singleton.1 hr]
    exact inverts_sampleRow
  · decide
  · decide

/-- A lease dated in the future, loaded while the clock stands shortly after 1970, is written and not restored. -/
theorem dynamic_round_trip_early : ∃ g, sampleData = .ok g ∧
    let s := (Run.run (poolStep sampleLibc) (.start g) [.load (some sampleMap) 100]).map
    ¬ Restored s (s.leases.map (snapshotRow s)) (loadDynamic { g with oom := false } sampleLibc
      (some (writeToFile samplePrinter (s.leases.map (snapshotRow s)) 200)) 200) := by
  obtain ⟨g, hs, h1, h2⟩ := start_any (r := sampleData) (p := fun g =>
    let s := (Run.run (poolStep sampleLibc) (.start g) [.load (some sampleMap) 100]).map
    s.leases.length = 1 ∧ (loadDynamic { g with oom := false } sampleLibc
      (some (writeToFile samplePrinter (s.leases.map (snapshotRow s)) 200)) 200).leases = []) (by decide +kernel)
  refine ⟨g, hs, fun hrest => ?_⟩
  have := hrest.leases.length_eq
  simp only [h2, List.map_nil, List.length_nil, List.length_map, h1] at this
  omega

end Tayga
