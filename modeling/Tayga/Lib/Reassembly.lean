import Mathlib.Data.List.Basic

/-!
# Reassembly

Pieces of a list, each with its offset and with a mark whether more follow, are put together again by their offsets
(`assemble`), in whatever order they come.  Pieces refine a piece if they lie in it and cover it (`Refines`): the pieces
of consecutive blocks refine the blocks as a whole (`refines_pieces`), and pieces that are cut again still do
(`Refines.flatMap`).  Pieces that refine a whole are put together to it (`Refines.assemble`).
-/

namespace Reassembly

/-- A piece: its offset, its content, and whether more follow. -/
structure Piece (α : Type) where
  offset : Nat
  data : List α
  more : Bool
deriving Repr, DecidableEq

/-- What a piece has at an index of the whole. -/
def Piece.get? {α : Type} (p : Piece α) (i : Nat) : Option α := if p.offset ≤ i then p.data[i - p.offset]? else none

/-- The pieces put together, once the end is known and nothing is missing. -/
def assemble {α : Type} (ps : List (Piece α)) : Option (List α) :=
  (ps.find? fun p => !p.more).bind fun last =>
    (List.range (last.offset + last.data.length)).mapM fun i => ps.findSome? fun p => p.get? i

/-- Pieces with the marks of what they are pieces of, put together if the marks agree. -/
def reassemble {κ α : Type} [DecidableEq κ] : List (κ × Piece α) → Option (κ × List α)
  | [] => none
  | (k, p) :: rest => if ∀ f ∈ rest, f.1 = k then (assemble (p :: rest.map Prod.snd)).map (k, ·) else none

/-- The pieces of consecutive blocks, which `more` pieces follow or not. -/
def pieces {α : Type} (offset : Nat) (more : Bool) : List (List α) → List (Piece α)
  | [] => []
  | b :: bs => ⟨offset, b, !bs.isEmpty || more⟩ :: pieces (offset + b.length) more bs

variable {κ α : Type} {p : Piece α} {ps qs : List (Piece α)} {d : List α} {offset i : Nat} {more : Bool} {x : α}

/-! ### Pieces of a piece -/

/-- The pieces lie in `p` and cover it, and if nothing follows `p` one of them is marked as the end. -/
structure Refines (ps : List (Piece α)) (p : Piece α) : Prop where
  hget : ∀ q ∈ ps, ∀ i x, q.get? i = some x → p.get? i = some x
  hcover : ∀ i x, p.get? i = some x → ∃ q ∈ ps, q.get? i = some x
  hend : ∀ q ∈ ps, q.more = false → p.more = false ∧ q.offset + q.data.length = p.offset + p.data.length
  hlast : p.more = false → ∃ q ∈ ps, q.more = false

theorem Refines.refl (p : Piece α) : Refines [p] p := by
  have hmem : p ∈ [p] := List.mem_singleton_self p
  refine ⟨fun q hq i x hx => ?_, fun i x hx => ⟨p, hmem, hx⟩, fun q hq hmore => ?_, fun hmore => ⟨p, hmem, hmore⟩⟩
  · rwa [← List.mem_singleton.1 hq]
  · obtain rfl := List.mem_singleton.1 hq
    exact ⟨hmore, rfl⟩

/-- The order does not matter. -/
theorem Refines.perm (h : Refines ps p) (hperm : qs.Perm ps) : Refines qs p := by
  refine ⟨fun q hq => h.hget q (hperm.mem_iff.1 hq), fun i x hx => ?_, fun q hq => h.hend q (hperm.mem_iff.1 hq),
    fun hmore => ?_⟩
  · obtain ⟨q, hq, hx⟩ := h.hcover i x hx
    exact ⟨q, hperm.mem_iff.2 hq, hx⟩
  · obtain ⟨q, hq, hqmore⟩ := h.hlast hmore
    exact ⟨q, hperm.mem_iff.2 hq, hqmore⟩

/-- **Pieces cut again** still refine the whole. -/
theorem Refines.flatMap {ι : Type} {l : List ι} {piece : ι → Piece α} {out : ι → List (Piece α)}
    (h : Refines (l.map piece) p) (hout : ∀ a ∈ l, Refines (out a) (piece a)) : Refines (l.flatMap out) p := by
  refine ⟨fun q hq i x hx => ?_, fun i x hx => ?_, fun q hq hmore => ?_, fun hmore => ?_⟩
  · obtain ⟨a, ha, hq⟩ := List.mem_flatMap.1 hq
    exact h.hget _ (List.mem_map_of_mem ha) i x ((hout a ha).hget q hq i x hx)
  · obtain ⟨p, hp, hx⟩ := h.hcover i x hx
    obtain ⟨a, ha, rfl⟩ := List.mem_map.1 hp
    obtain ⟨q, hq, hx⟩ := (hout a ha).hcover i x hx
    exact ⟨q, List.mem_flatMap.2 ⟨a, ha, hq⟩, hx⟩
  · obtain ⟨a, ha, hq⟩ := List.mem_flatMap.1 hq
    obtain ⟨hamore, hend⟩ := (hout a ha).hend q hq hmore
    obtain ⟨hpmore, hend'⟩ := h.hend _ (List.mem_map_of_mem ha) hamore
    exact ⟨hpmore, hend.trans hend'⟩
  · obtain ⟨q, hq, hqmore⟩ := h.hlast hmore
    obtain ⟨a, ha, rfl⟩ := List.mem_map.1 hq
    obtain ⟨r, hr, hrmore⟩ := (hout a ha).hlast hqmore
    exact ⟨r, List.mem_flatMap.2 ⟨a, ha, hr⟩, hrmore⟩

/-! ### Blocks -/

variable {bs : List (List α)}

private theorem get?_eq_some : p.get? i = some x ↔ p.offset ≤ i ∧ p.data[i - p.offset]? = some x := by
  unfold Piece.get?
  split
  · next h => exact (and_iff_right h).symm
  · next h => exact iff_of_false (by simp) fun hx => h hx.1

/-- What the pieces of blocks have, the blocks have. -/
private theorem get?_pieces :
    (∃ p ∈ pieces offset more bs, p.get? i = some x) ↔ offset ≤ i ∧ bs.flatten[i - offset]? = some x := by
  induction bs generalizing offset with
  | nil => simp [pieces]
  | cons b bs ih =>
    unfold pieces
    rw [List.exists_mem_cons_iff, ih, get?_eq_some, List.flatten_cons]
    by_cases hb : i - offset < b.length
    · rw [List.getElem?_append_left hb]
      exact or_iff_left fun h => absurd h.1 (by omega)
    · rw [List.getElem?_append_right (Nat.le_of_not_lt hb), Nat.sub_sub]
      refine (or_iff_right fun h => ?_).trans (and_congr_left' ?_)
      · rw [List.getElem?_eq_none (Nat.le_of_not_lt hb)] at h
        cases h.2
      · omega

private theorem end_pieces (hp : p ∈ pieces offset more bs) (hmore : p.more = false) :
    more = false ∧ p.offset + p.data.length = offset + bs.flatten.length := by
  induction bs generalizing offset with
  | nil => cases hp
  | cons b bs ih =>
    rcases List.mem_cons.1 hp with rfl | hp
    · obtain ⟨hnil, hmore⟩ := Bool.or_eq_false_iff.1 hmore
      obtain rfl : bs = [] := by simpa using hnil
      exact ⟨hmore, by simp⟩
    · obtain ⟨hmore, hend⟩ := ih hp
      exact ⟨hmore, by rw [hend, List.flatten_cons, List.length_append, Nat.add_assoc]⟩

private theorem last_pieces (hbs : bs ≠ []) : ∃ p ∈ pieces offset false bs, p.more = false := by
  induction bs generalizing offset with
  | nil => exact absurd rfl hbs
  | cons b bs ih =>
    by_cases hnil : bs = []
    · exact ⟨_, List.mem_cons_self, by rw [hnil]; rfl⟩
    · obtain ⟨p, hp, hmore⟩ : ∃ p ∈ pieces (offset + b.length) false bs, p.more = false := ih hnil
      exact ⟨p, List.mem_cons_of_mem _ hp, hmore⟩

/-- **The pieces of blocks** refine what the blocks are together. -/
theorem refines_pieces (hbs : more = false → bs ≠ []) : Refines (pieces offset more bs) ⟨offset, bs.flatten, more⟩ := by
  refine ⟨fun q hq i x hx => ?_, fun i x hx => ?_, fun q hq hmore => end_pieces hq hmore, fun hmore => ?_⟩
  · exact get?_eq_some.2 (get?_pieces.1 ⟨q, hq, hx⟩)
  · exact get?_pieces.2 (get?_eq_some.1 hx)
  · obtain rfl : more = false := hmore
    exact last_pieces (hbs rfl)

theorem offset_le_of_mem_pieces (hp : p ∈ pieces offset more bs) : offset ≤ p.offset := by
  induction bs generalizing offset with
  | nil => cases hp
  | cons b bs ih =>
    rcases List.mem_cons.1 hp with rfl | hp
    · exact Nat.le_refl _
    · exact Nat.le_trans (Nat.le_add_right _ _) (ih hp)

/-- Of several pieces, each has something before it or behind it. -/
theorem offset_or_more_of_mem_pieces {b : List α} (hp : p ∈ pieces 0 more (b :: bs)) (hb : 0 < b.length)
    (hbs : bs ≠ []) : p.offset ≠ 0 ∨ p.more = true := by
  rcases List.mem_cons.1 hp with rfl | hp
  · refine .inr (Bool.or_eq_true_iff.2 (.inl ?_))
    rw [Bool.not_eq_true', List.isEmpty_eq_false_iff]
    exact hbs
  · have hle := offset_le_of_mem_pieces hp
    exact .inl (by omega)

theorem length_le_of_mem_pieces (hp : p ∈ pieces offset more bs) : p.data.length ≤ bs.flatten.length := by
  induction bs generalizing offset with
  | nil => cases hp
  | cons b bs ih =>
    rw [List.flatten_cons, List.length_append]
    rcases List.mem_cons.1 hp with rfl | hp
    · exact Nat.le_add_right _ _
    · exact Nat.le_trans (ih hp) (Nat.le_add_left _ _)

/-- Pieces that follow one another are those of their contents. -/
theorem eq_pieces (hfirst : ∀ hi : 0 < ps.length, ps[0].offset = offset)
    (hnext : ∀ i, ∀ hi : i + 1 < ps.length, ps[i + 1].offset = ps[i].offset + ps[i].data.length ∧ ps[i].more = true)
    (hlast : ∀ i, ∀ hi : i < ps.length, i + 1 = ps.length → ps[i].more = more) :
    ps = pieces offset more (ps.map Piece.data) := by
  induction ps generalizing offset with
  | nil => rfl
  | cons p ps ih =>
    have hoffset : p.offset = offset := hfirst (Nat.zero_lt_succ _)
    have hmore : p.more = (!(ps.map Piece.data).isEmpty || more) := by
      cases ps with
      | nil => exact hlast 0 (Nat.zero_lt_succ _) rfl
      | cons q ps => exact (hnext 0 (Nat.succ_lt_succ (Nat.zero_lt_succ _))).2
    have hrest : ps = pieces (p.offset + p.data.length) more (ps.map Piece.data) := by
      refine ih (fun hi => ?_) (fun i hi => ?_) fun i hi hend => ?_
      · exact (hnext 0 (Nat.succ_lt_succ hi)).1
      · exact hnext (i + 1) (Nat.succ_lt_succ hi)
      · exact hlast (i + 1) (Nat.succ_lt_succ hi) (congrArg (· + 1) hend)
    rw [List.map_cons, pieces, ← hmore, ← hoffset, ← hrest]

/-! ### Putting together -/

private theorem mapM_eq_some {ι : Type} {f : ι → Option α} {l : List ι} (h : l.map f = d.map some) :
    l.mapM f = some d := by
  induction l generalizing d with
  | nil =>
    rw [List.map_nil, eq_comm, List.map_eq_nil_iff] at h
    rw [h, List.mapM_nil]
    rfl
  | cons a l ih =>
    obtain ⟨x, d, rfl, hx, hl⟩ := List.map_eq_cons_iff.1 h.symm
    rw [List.mapM_cons, ih hl.symm, ← hx]
    rfl

/-- **Pieces that refine a whole are put together to it.** -/
theorem Refines.assemble (h : Refines ps ⟨0, d, false⟩) : assemble ps = some d := by
  obtain ⟨last, hmem, hmore⟩ := h.hlast rfl
  obtain ⟨p, hp⟩ : ∃ p, ps.find? (fun p => !p.more) = some p := by
    rw [← Option.isSome_iff_exists, List.find?_isSome]
    exact ⟨last, hmem, by rw [hmore]; rfl⟩
  have hend : p.offset + p.data.length = d.length := by
    refine ((h.hend p (List.mem_of_find?_eq_some hp) ?_).2).trans (Nat.zero_add _)
    simpa using List.find?_some hp
  have hat : ∀ i < d.length, (ps.findSome? fun p => p.get? i) = d[i]? := by
    intro i hi
    obtain ⟨q, hq, hx⟩ := h.hcover i d[i] (get?_eq_some.2 ⟨Nat.zero_le i, List.getElem?_eq_getElem hi⟩)
    rcases hfind : ps.findSome? (fun p => p.get? i) with _ | y
    · rw [List.findSome?_eq_none_iff.1 hfind q hq] at hx
      cases hx
    · obtain ⟨r, hr, hy⟩ := List.exists_of_findSome?_eq_some hfind
      rw [hfind]
      exact (get?_eq_some.1 (h.hget r hr i y hy)).2.symm
  unfold Reassembly.assemble
  rw [hp, Option.bind_some, hend]
  apply mapM_eq_some
  refine List.ext_getElem ?_ fun i hi _ => ?_
  · rw [List.length_map, List.length_range, List.length_map]
  · rw [List.length_map, List.length_range] at hi
    rw [List.getElem_map, List.getElem_range, List.getElem_map, hat i hi, List.getElem?_eq_getElem hi]

/-- The same with marks that agree. -/
theorem Refines.reassemble [DecidableEq κ] {k : κ} {fs : List (κ × Piece α)} (hkey : ∀ f ∈ fs, f.1 = k)
    (h : Refines (fs.map Prod.snd) ⟨0, d, false⟩) : reassemble fs = some (k, d) := by
  match fs, hkey with
  | [], _ =>
    obtain ⟨q, hq, -⟩ := h.hlast rfl
    cases hq
  | (k', p) :: rest, hkey =>
    obtain rfl : k' = k := hkey _ List.mem_cons_self
    have hsame : ∀ f ∈ rest, f.1 = k' := fun f hf => hkey f (List.mem_cons_of_mem _ hf)
    dsimp only [Reassembly.reassemble]
    rw [if_pos hsame, show Reassembly.assemble (p :: rest.map Prod.snd) = some d from h.assemble]
    rfl

end Reassembly
