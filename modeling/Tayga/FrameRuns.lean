import Tayga.Lib.Run
import Tayga.PacketFrame

/-!
# Runs of the frame pool

The pool under any sequence of operations with any tokens, and of writes by the owners of the frames to their geometry.
What a successful operation does is said once (`Applied`, `applied_of_ok`); a token of an earlier use stays stale
because generations only grow (`generation_run`), a frame the kernel owns is left by four operations only
(`posted_run`), and after the backend is closed no frame is given to the kernel and a pool that may be unmapped stays
so (`FramesInv`).
-/

namespace Tayga

open Run

/-- The operations on a pool, and a write of an owner to the geometry of a frame. -/
inductive FrameOp where
  | acquire (slot : Nat)
  | transition (token : PacketFrameToken) (state : FrameState)
  | prepend (token : PacketFrameToken) (bytes : Nat)
  | rollback (token : PacketFrameToken)
  | stop
  | close
  | write (slot offset length : Nat)
deriving Repr, DecidableEq

/-- The token an operation is called with. -/
def FrameOp.token? : FrameOp → Option PacketFrameToken
  | .transition token _ => some token
  | .prepend token _ => some token
  | .rollback token => some token
  | _ => none

namespace PacketFramePool

variable {p p' : PacketFramePool} {op : FrameOp} {slot : Nat} {token : PacketFrameToken}

/-- The outcome of an operation. -/
def apply (p : PacketFramePool) : FrameOp → Except Errno PacketFramePool
  | .acquire slot => (p.acquire slot).map Prod.fst
  | .transition token state => p.transition token state
  | .prepend token bytes => p.prepend token bytes
  | .rollback token => p.unpublishedRollback token
  | .stop => .ok p.stop
  | .close => p.closeBackend
  | .write slot offset length => .ok (p.setFrame slot { p.frames slot with
      offset := offset
      length := length })

/-- The pool after an operation; a failed one has done nothing. -/
def step (p : PacketFramePool) (op : FrameOp) : PacketFramePool :=
  match p.apply op with
  | .ok p' => p'
  | .error _ => p

/-- The token is of another pool. -/
def Foreign (p : PacketFramePool) (token : PacketFrameToken) : Prop := token.poolIdentity ≠ p.identity

/-- The token is not that of the present use of its frame. -/
def Stale (p : PacketFramePool) (token : PacketFrameToken) : Prop :=
  p.count ≤ token.slot ∨ token.generation = 0 ∨ (p.frames token.slot).generation ≠ token.generation

/-- The kernel owns the frame. -/
def Posted (f : PacketFrame) : Prop := f.state = .rxPosted ∨ f.state = .txSubmitted

instance (f : PacketFrame) : Decidable (Posted f) := inferInstanceAs (Decidable (_ ∨ _))

/-! ### What an operation does -/

theorem lookup_eq_ok {f : PacketFrame} : p.lookup token = .ok f ↔
    ¬p.Foreign token ∧ ¬p.Stale token ∧ p.frames token.slot = f := by
  unfold lookup Foreign Stale
  split
  · rename_i h
    simp only [reduceCtorEq, false_iff]
    tauto
  · rename_i h
    simp only [Except.ok.injEq]
    tauto

/-- A successful operation, with its guards. -/
inductive Applied (p : PacketFramePool) : FrameOp → PacketFramePool → Prop
  | acquire {slot : Nat} (hs : slot < p.count) (hrun : p.stopping = false) (hfree : (p.frames slot).state = .free)
      (hgen : (p.frames slot).generation ≠ 2 ^ 64 - 1) :
      Applied p (.acquire slot) (p.setFrame slot { p.frames slot with
        generation := (p.frames slot).generation + 1
        offset := 0
        length := 0
        state := .received })
  | move {token : PacketFrameToken} {state : FrameState} (hst : ¬p.Stale token)
      (ha : p.allowed (p.frames token.slot) state = true) (hne : state ≠ .free)
      (hg : (p.frames token.slot).geometry = true) :
      Applied p (.transition token state) (p.setFrame token.slot { p.frames token.slot with state := state })
  | release {token : PacketFrameToken} (hst : ¬p.Stale token)
      (ha : p.allowed (p.frames token.slot) .free = true) :
      Applied p (.transition token .free) (p.setFrame token.slot { p.frames token.slot with
        state := .free
        length := 0
        offset := 0 })
  | prepend {token : PacketFrameToken} {bytes : Nat} (hst : ¬p.Stale token)
      (hs : (p.frames token.slot).state = .translating) (hg : (p.frames token.slot).geometry = true)
      (hb : bytes ≤ (p.frames token.slot).offset) :
      Applied p (.prepend token bytes) (p.setFrame token.slot { p.frames token.slot with
        offset := (p.frames token.slot).offset - bytes
        length := (p.frames token.slot).length + bytes })
  | rollback {token : PacketFrameToken} {state : FrameState} (hst : ¬p.Stale token)
      (hs : (p.frames token.slot).state = .rxPosted ∧ state = .received ∨
        (p.frames token.slot).state = .txSubmitted ∧ state = .pendingTx) :
      Applied p (.rollback token) (p.setFrame token.slot { p.frames token.slot with state := state })
  | stop : Applied p .stop p.stop
  | close (hstop : p.stopping = true) : Applied p .close { p with
      backendClosed := true
      frames := fun i => if i < p.count ∧ Posted (p.frames i) then { p.frames i with state := .completed }
        else p.frames i }
  | write {slot offset length : Nat} : Applied p (.write slot offset length) (p.setFrame slot { p.frames slot with
      offset := offset
      length := length })

/-- A successful acquisition, with its guards. -/
theorem acquire_eq_ok (h : p.acquire slot = .ok (p', token)) : slot < p.count ∧ p.stopping = false ∧
    (p.frames slot).state = .free ∧ (p.frames slot).generation ≠ 2 ^ 64 - 1 ∧
    p' = p.setFrame slot { p.frames slot with
      generation := (p.frames slot).generation + 1
      offset := 0
      length := 0
      state := .received } ∧ token = ⟨slot, (p.frames slot).generation + 1, p.identity⟩ := by
  unfold acquire at h
  split at h
  · cases h
  split at h
  · cases h
  dsimp only at h
  split at h
  · cases h
  split at h
  · cases h
  rename_i hs hrun hfree hgen
  obtain ⟨rfl, rfl⟩ := Prod.mk.inj (Except.ok.inj h)
  exact ⟨by omega, by simpa using hrun, by simpa using hfree, hgen, rfl, rfl⟩

private theorem applied_acquire (h : p.acquire slot = .ok (p', token)) : Applied p (.acquire slot) p' := by
  obtain ⟨hs, hrun, hfree, hgen, rfl, -⟩ := acquire_eq_ok h
  exact .acquire hs hrun hfree hgen

private theorem applied_transition {state : FrameState} (h : p.transition token state = .ok p') :
    Applied p (.transition token state) p' := by
  unfold transition at h
  split at h
  · cases h
  rename_i f hl
  obtain ⟨-, hst, rfl⟩ := lookup_eq_ok.1 hl
  split at h
  · cases h
  rename_i ha
  split at h
  · cases h
  rename_i hg
  simp only [Bool.not_eq_true', Bool.not_eq_false] at ha
  split at h
  · rename_i hfree
    subst hfree
    obtain rfl := Except.ok.inj h
    exact .release hst ha
  · rename_i hne
    obtain rfl := Except.ok.inj h
    exact .move hst ha hne (by simpa [hne] using hg)

private theorem applied_prepend {bytes : Nat} (h : p.prepend token bytes = .ok p') :
    Applied p (.prepend token bytes) p' := by
  unfold prepend at h
  split at h
  · cases h
  rename_i f hl
  obtain ⟨-, hst, rfl⟩ := lookup_eq_ok.1 hl
  split at h
  · cases h
  split at h
  · cases h
  split at h
  · cases h
  rename_i hs hg hb
  obtain rfl := Except.ok.inj h
  exact .prepend hst (by simpa using hs) (by simpa using hg) (by omega)

private theorem applied_rollback (h : p.unpublishedRollback token = .ok p') : Applied p (.rollback token) p' := by
  unfold unpublishedRollback at h
  split at h
  · cases h
  rename_i f hl
  obtain ⟨-, hst, rfl⟩ := lookup_eq_ok.1 hl
  split at h
  · rename_i hs
    obtain rfl := Except.ok.inj h
    exact .rollback hst (.inl ⟨hs, rfl⟩)
  split at h
  · rename_i hs
    obtain rfl := Except.ok.inj h
    exact .rollback hst (.inr ⟨hs, rfl⟩)
  · cases h

private theorem applied_close (h : p.closeBackend = .ok p') : Applied p .close p' := by
  unfold closeBackend at h
  split at h
  · cases h
  rename_i hstop
  obtain rfl := Except.ok.inj h
  exact .close (by simpa using hstop)

private theorem applied_of_ok (h : p.apply op = .ok p') : Applied p op p' := by
  cases op with
  | acquire slot =>
    cases ha : p.acquire slot with
    | error e => simp [apply, ha, Except.map] at h
    | ok r =>
      rw [apply, ha] at h
      obtain rfl := Except.ok.inj h
      exact applied_acquire ha
  | transition token state => exact applied_transition h
  | prepend token bytes => exact applied_prepend h
  | rollback token => exact applied_rollback h
  | stop =>
    obtain rfl := Except.ok.inj h
    exact .stop
  | close => exact applied_close h
  | write slot offset length =>
    obtain rfl := Except.ok.inj h
    exact .write

/-- An operation has done nothing or what it says. -/
theorem step_cases (p : PacketFramePool) (op : FrameOp) : p.step op = p ∨ ∃ p', p.step op = p' ∧ Applied p op p' := by
  unfold step
  cases h : p.apply op with
  | error e => exact .inl rfl
  | ok p' => exact .inr ⟨p', rfl, applied_of_ok h⟩

/-! ### Tokens -/

/-- An operation with a stale or foreign token fails. -/
private theorem apply_of_stale (ht : op.token? = some token) (h : p.Foreign token ∨ p.Stale token) :
    p.apply op = .error .estale := by
  have hl : p.lookup token = .error .estale := by
    cases hl : p.lookup token with
    | ok f =>
      obtain ⟨hf, hs, -⟩ := lookup_eq_ok.1 hl
      exact absurd h (not_or.2 ⟨hf, hs⟩)
    | error e =>
      unfold lookup at hl
      split at hl
      · exact hl.symm
      · cases hl
  cases op with
  | transition t state =>
    obtain rfl := Option.some.inj ht
    simp only [apply, transition, hl]
  | prepend t bytes =>
    obtain rfl := Option.some.inj ht
    simp only [apply, prepend, hl]
  | rollback t =>
    obtain rfl := Option.some.inj ht
    simp only [apply, unpublishedRollback, hl]
  | acquire | stop | close | write => cases ht

/-! ### What every operation keeps -/

theorem frames_setFrame (p : PacketFramePool) (i : Nat) (f : PacketFrame) (j : Nat) :
    (p.setFrame i f).frames j = if j = i then f else p.frames j := Function.update_apply ..

private theorem count_step (p : PacketFramePool) (op : FrameOp) : (p.step op).count = p.count := by
  rcases step_cases p op with h | ⟨p', h, ha⟩ <;> rw [h]
  cases ha <;> rfl

/-! ### The closed backend -/

/-- The kernel has given back all frames once the backend is closed. -/
structure FramesInv (p : PacketFramePool) : Prop where
  stopping : p.backendClosed = true → p.stopping = true
  closed : p.backendClosed = true → ∀ slot < p.count, ¬Posted (p.frames slot)

theorem FramesInv.setFrame (h : FramesInv p) {i : Nat} {f : PacketFrame}
    (hf : p.backendClosed = true → i < p.count → ¬Posted f) : FramesInv (p.setFrame i f) where
  stopping := h.stopping
  closed hc slot hs := by
    rw [frames_setFrame]
    split
    · rename_i hi
      exact hf hc (hi ▸ hs)
    · exact h.closed hc slot hs

/-- No operation gives a frame to the kernel once the backend is closed. -/
private theorem FramesInv.applied (h : FramesInv p) (ha : Applied p op p') : FramesInv p' := by
  cases ha with
  | acquire hs hrun hfree hgen =>
    refine h.setFrame fun _ _ => ?_
    rintro (hp | hp) <;> cases hp
  | @move token state hst ha hne hg =>
    refine h.setFrame fun hc _ => ?_
    rintro (hp | hp)
    · have hp' : state = .rxPosted := hp
      subst hp'
      simp [allowed, h.stopping hc] at ha
    · have hp' : state = .txSubmitted := hp
      subst hp'
      simp [allowed, hc] at ha
  | release hst ha =>
    refine h.setFrame fun _ _ => ?_
    rintro (hp | hp) <;> cases hp
  | prepend hst hs hg hb => exact h.setFrame fun hc hi => h.closed hc _ hi
  | @rollback token state hst hs =>
    refine h.setFrame fun _ _ => ?_
    rcases hs with ⟨-, rfl⟩ | ⟨-, rfl⟩ <;> rintro (hp | hp) <;> cases hp
  | stop => exact ⟨fun _ => rfl, h.closed⟩
  | close hstop =>
    refine ⟨fun _ => hstop, fun _ slot hs => ?_⟩
    dsimp only
    split
    · rintro (hp | hp) <;> cases hp
    · rename_i hp
      exact fun hpost => hp ⟨hs, hpost⟩
  | write => exact h.setFrame fun hc hi => h.closed hc _ hi

theorem FramesInv.step (h : FramesInv p) (op : FrameOp) : FramesInv (p.step op) := by
  rcases step_cases p op with he | ⟨p', he, ha⟩ <;> rw [he]
  · exact h
  · exact h.applied ha

/-- A frame of a pool without open backend stays free. -/
private theorem free_applied (h : p.stopping = true) (ha : Applied p op p') (hf : (p.frames slot).state = .free) :
    (p'.frames slot).state = .free := by
  cases ha with
  | acquire hs hrun hfree hgen =>
    rw [h] at hrun
    cases hrun
  | @move token state hst ha hne hg =>
    rw [frames_setFrame]
    split
    · rename_i he
      subst he
      cases state <;> simp [allowed, hf] at ha
    · exact hf
  | release hst ha =>
    rw [frames_setFrame]
    split
    · rfl
    · exact hf
  | @prepend token bytes hst hs hg hb =>
    rw [frames_setFrame]
    split
    · rename_i he
      subst he
      exact hf
    · exact hf
  | @rollback token state hst hs =>
    rw [frames_setFrame]
    split
    · rename_i he
      subst he
      rcases hs with ⟨hs, -⟩ | ⟨hs, -⟩ <;> rw [hf] at hs <;> cases hs
    · exact hf
  | stop => exact hf
  | close hstop =>
    dsimp only
    split
    · rename_i hp
      rcases hp.2 with hp | hp <;> rw [hf] at hp <;> cases hp
    · exact hf
  | @write i o l =>
    rw [frames_setFrame]
    split
    · rename_i he
      subst he
      exact hf
    · exact hf

private theorem canUnmap_iff :
    p.canUnmap = true ↔ p.backendClosed = true ∧ ∀ slot < p.count, (p.frames slot).state = .free
    := by
  simp [canUnmap, List.all_eq_true]

private theorem backendClosed_step (op : FrameOp) (h : p.backendClosed = true) : (p.step op).backendClosed = true := by
  rcases step_cases p op with he | ⟨p', he, ha⟩ <;> rw [he]
  · exact h
  · cases ha <;> first | exact h | rfl

/-- A pool that may be unmapped stays so. -/
private theorem canUnmap_step (h : FramesInv p) (op : FrameOp) (hu : p.canUnmap = true) :
    (p.step op).canUnmap = true := by
  rw [canUnmap_iff] at hu ⊢
  refine ⟨backendClosed_step op hu.1, fun slot hs => ?_⟩
  rw [count_step] at hs
  rcases step_cases p op with he | ⟨p', he, ha⟩ <;> rw [he]
  · exact hu.2 slot hs
  · exact free_applied (h.stopping hu.1) ha (hu.2 slot hs)

/-! ### Frames the kernel owns -/

/-- The operation gives the frame back to its owner: a completion, a reception, a rollback or the close. -/
def Returns (slot : Nat) : FrameOp → Prop
  | .transition token .completed => token.slot = slot
  | .transition token .received => token.slot = slot
  | .rollback token => token.slot = slot
  | .close => True
  | _ => False

/-- A frame the kernel owns keeps its state unless it is given back. -/
private theorem posted_applied (ha : Applied p op p') (hf : Posted (p.frames slot)) :
    Returns slot op ∨ (p'.frames slot).state = (p.frames slot).state := by
  cases ha with
  | @acquire i hs hrun hfree hgen =>
    right
    rw [frames_setFrame]
    split
    · rename_i he
      subst he
      rcases hf with hf | hf <;> rw [hfree] at hf <;> cases hf
    · rfl
  | @move token state hst ha hne hg =>
    rw [frames_setFrame]
    split
    · rename_i he
      subst he
      left
      rcases hf with hf | hf <;> cases state <;> simp_all [allowed, Returns]
    · exact .inr rfl
  | @release token hst ha =>
    right
    rw [frames_setFrame]
    split
    · rename_i he
      subst he
      rcases hf with hf | hf <;> simp [allowed, hf] at ha
    · rfl
  | @prepend token bytes hst hs hg hb =>
    right
    rw [frames_setFrame]
    split
    · rename_i he
      rw [he]
    · rfl
  | @rollback token state hst hs =>
    by_cases he : token.slot = slot
    · exact .inl he
    · right
      rw [frames_setFrame, if_neg (Ne.symm he)]
  | stop => exact .inr rfl
  | close hstop => exact .inl trivial
  | @write i o l =>
    right
    rw [frames_setFrame]
    split
    · rename_i he
      rw [he]
    · rfl

/-- A frame the kernel owns gets free only after an operation that gives it back. -/
private theorem posted_run {ops : List FrameOp} (hf : Posted (p.frames slot))
    (hfree : ((run step p ops).frames slot).state = .free) :
    ∃ pre op post, ops = pre ++ op :: post ∧ Posted ((run step p pre).frames slot) ∧
      ¬Posted ((run step p (pre ++ [op])).frames slot) ∧ Returns slot op := by
  induction ops generalizing p with
  | nil => rcases hf with hf | hf <;> rw [run_nil, hf] at hfree <;> cases hfree
  | cons op ops ih =>
    by_cases hf' : Posted ((p.step op).frames slot)
    · obtain ⟨pre, o, post, rfl, hp, hn, hret⟩ := ih hf' hfree
      exact ⟨op :: pre, o, post, rfl, hp, hn, hret⟩
    · refine ⟨[], op, ops, rfl, hf, hf', ?_⟩
      rcases step_cases p op with he | ⟨p', he, ha⟩ <;> rw [he] at hf'
      · exact absurd hf hf'
      · refine (posted_applied ha hf).resolve_right fun hs => hf' ?_
        unfold Posted
        rw [hs]
        exact hf

/-! ### Generations -/

private theorem generation_step (p : PacketFramePool) (op : FrameOp) (slot : Nat) :
    (p.frames slot).generation ≤ ((p.step op).frames slot).generation := by
  rcases step_cases p op with he | ⟨p', he, ha⟩
  · exact Nat.le_of_eq (by rw [he])
  · rw [he]
    cases ha with
    | stop => exact Nat.le_refl _
    | close hstop =>
      dsimp only
      split <;> exact Nat.le_refl _
    | acquire | move | release | prepend | rollback | write =>
      rw [frames_setFrame]
      split
      · rename_i he
        subst he
        simp
      · exact Nat.le_refl _

private theorem generation_run (p : PacketFramePool) (ops : List FrameOp) (slot : Nat) :
    (p.frames slot).generation ≤ ((run step p ops).frames slot).generation := by
  induction ops generalizing p with
  | nil => exact Nat.le_refl _
  | cons op ops ih => exact Nat.le_trans (generation_step p op slot) (ih _)

/-- The token of an acquisition has the generation of the frame, and the next acquisition has a greater one. -/
private theorem acquire_token (h : p.acquire slot = .ok (p', token)) : token.slot = slot ∧
    token.generation = (p'.frames slot).generation ∧ (p.frames slot).generation < token.generation := by
  obtain ⟨-, -, -, -, rfl, rfl⟩ := acquire_eq_ok h
  exact ⟨rfl, by rw [frames_setFrame, if_pos rfl], Nat.lt_succ_self _⟩

/-- A token is stale for good once its slot has been acquired again. -/
private theorem stale_of_reacquired {p₁ p₂ p₃ : PacketFramePool} {token' : PacketFrameToken} {ops ops' : List FrameOp}
    (h : p.acquire slot = .ok (p₁, token)) (h₂ : run step p₁ ops = p₂)
    (h' : p₂.acquire slot = .ok (p₃, token')) : (run step p₃ ops').Stale token := by
  obtain ⟨rfl, hg, -⟩ := acquire_token h
  obtain ⟨-, hg', hlt⟩ := acquire_token h'
  have h1 := generation_run p₁ ops token.slot
  have h2 := generation_run p₃ ops' token.slot
  rw [h₂] at h1
  exact .inr (.inr (by omega))

/-! ### Geometry -/

/-- A write of an owner respects the geometry of its frame. -/
def Respects (p : PacketFramePool) : FrameOp → Prop
  | .write slot offset length => ({ p.frames slot with
      offset := offset
      length := length } : PacketFrame).geometry = true
  | _ => True

/-- The geometry of every frame of the pool is valid. -/
def GeometryInv (p : PacketFramePool) : Prop := ∀ slot < p.count, (p.frames slot).geometry = true

theorem geometry_iff {f : PacketFrame} :
    f.geometry = true ↔ f.storage = true ∧ f.offset ≤ f.capacity ∧ f.length ≤ f.capacity - f.offset := by
  simp [PacketFrame.geometry, and_assoc]

theorem GeometryInv.setFrame (h : GeometryInv p) {i : Nat} {f : PacketFrame}
    (hf : i < p.count → f.geometry = true) : GeometryInv (p.setFrame i f) := by
  intro slot hs
  rw [frames_setFrame]
  split
  · rename_i hi
    exact hf (hi ▸ hs)
  · exact h slot hs

private theorem GeometryInv.applied (h : GeometryInv p) (hr : p.Respects op) (ha : Applied p op p') :
    GeometryInv p' := by
  cases ha with
  | acquire hs hrun hfree hgen =>
    refine h.setFrame fun hi => ?_
    rw [geometry_iff]
    exact ⟨(geometry_iff.1 (h _ hi)).1, Nat.zero_le _, Nat.zero_le _⟩
  | move hst ha hne hg => exact h.setFrame fun hi => h _ hi
  | release hst ha =>
    refine h.setFrame fun hi => ?_
    rw [geometry_iff]
    exact ⟨(geometry_iff.1 (h _ hi)).1, Nat.zero_le _, Nat.zero_le _⟩
  | prepend hst hs hg hb =>
    refine h.setFrame fun hi => ?_
    rw [geometry_iff] at hg ⊢
    dsimp only
    obtain ⟨hg1, hg2, hg3⟩ := hg
    exact ⟨hg1, by omega, by omega⟩
  | rollback hst hs => exact h.setFrame fun hi => h _ hi
  | stop => exact h
  | close hstop =>
    intro slot hs
    dsimp only
    split
    · exact h slot hs
    · exact h slot hs
  | write => exact h.setFrame fun _ => hr

theorem GeometryInv.step (h : GeometryInv p) (hr : p.Respects op) : GeometryInv (p.step op) := by
  rcases step_cases p op with he | ⟨p', he, ha⟩ <;> rw [he]
  · exact h
  · exact h.applied hr ha

/-! ### Runs -/

private theorem count_run (p : PacketFramePool) (ops : List FrameOp) : (run step p ops).count = p.count := by
  induction ops generalizing p with
  | nil => rfl
  | cons op ops ih => rw [run_cons, ih, count_step]

theorem FramesInv.run (h : FramesInv p) (ops : List FrameOp) : FramesInv (run PacketFramePool.step p ops) := by
  induction ops generalizing p with
  | nil => exact h
  | cons op ops ih => exact ih (h.step op)

private theorem backendClosed_run (ops : List FrameOp) (h : p.backendClosed = true) :
    (run step p ops).backendClosed = true := by
  induction ops generalizing p with
  | nil => exact h
  | cons op ops ih => exact ih (backendClosed_step op h)

private theorem canUnmap_run (h : FramesInv p) (ops : List FrameOp) (hu : p.canUnmap = true) :
    (run step p ops).canUnmap = true := by
  induction ops generalizing p with
  | nil => exact hu
  | cons op ops ih => exact ih (h.step op) (canUnmap_step h op hu)

/-- After a successful close no frame is owned by the kernel, whatever follows. -/
private theorem closed_run (h : FramesInv p) (hc : p.closeBackend = .ok p') (ops : List FrameOp) {slot : Nat}
    (hs : slot < p.count) : ¬Posted ((run step p' ops).frames slot) := by
  have ha := applied_close hc
  have hc' : p'.backendClosed = true := by
    cases ha
    rfl
  have hcount : p'.count = p.count := by
    cases ha
    rfl
  refine ((h.applied ha).run ops).closed (backendClosed_run ops hc') slot ?_
  rw [count_run, hcount]
  exact hs

private theorem init_inv {frames : Nat → PacketFrame} {count identity : Nat} (h : init frames count identity = .ok p) :
    FramesInv p ∧ GeometryInv p := by
  unfold init at h
  split at h
  · cases h
  split at h
  · cases h
  rename_i hs
  obtain rfl := Except.ok.inj h
  refine ⟨⟨nofun, nofun⟩, fun slot hslot => ?_⟩
  rw [Bool.not_eq_true, List.any_eq_false] at hs
  have := hs slot (List.mem_range.2 hslot)
  rw [geometry_iff]
  exact ⟨by simp_all, Nat.zero_le _, Nat.zero_le _⟩

/-- The lifetime contract of the frames of a pool, in every state of every run: an operation with a stale or foreign
token, and one that fails, changes nothing, and a token stays stale once its slot is acquired again; a frame the kernel
owns gets free only after it was given back; after the close no frame is given to the kernel; a pool that may be
unmapped stays so; and the geometry is valid where the owners respect it. -/
theorem frame_lifetime {frames : Nat → PacketFrame} {count identity : Nat} {p₀ : PacketFramePool}
    (h : init frames count identity = .ok p₀) (ops : List FrameOp) :
    let p := run step p₀ ops
    (∀ op token, op.token? = some token → p.Foreign token ∨ p.Stale token → p.step op = p) ∧
    (∀ slot token token' p₁ p₃ ops₁ ops₂, p.acquire slot = .ok (p₁, token) →
      (run step p₁ ops₁).acquire slot = .ok (p₃, token') → (run step p₃ ops₂).Stale token) ∧
    (∀ op e, p.apply op = .error e → p.step op = p) ∧
    (∀ slot ops₁, Posted (p.frames slot) → ((run step p ops₁).frames slot).state = .free →
      ∃ pre op post, ops₁ = pre ++ op :: post ∧ Posted ((run step p pre).frames slot) ∧
        ¬Posted ((run step p (pre ++ [op])).frames slot) ∧ Returns slot op) ∧
    (∀ p₁, p.closeBackend = .ok p₁ → ∀ ops₁, ∀ slot < p.count, ¬Posted ((run step p₁ ops₁).frames slot)) ∧
    (p.canUnmap = true → ∀ ops₁, (run step p ops₁).canUnmap = true) ∧
    (Along step Respects p₀ ops → ∀ slot < p.count, (p.frames slot).geometry = true) := by
  intro p
  obtain ⟨hinv, hgeo⟩ := init_inv h
  have hp : FramesInv p := hinv.run ops
  refine ⟨?_, ?_, ?_, ?_, ?_, ?_, ?_⟩
  · intro op token ht hs
    rw [step, apply_of_stale ht hs]
  · intro slot token token' p₁ p₃ ops₁ ops₂ h1 h3
    exact stale_of_reacquired h1 rfl h3
  · intro op e he
    rw [step, he]
  · intro slot ops₁ hf hfree
    exact posted_run hf hfree
  · intro p₁ h1 ops₁ slot hs
    exact closed_run hp h1 ops₁ hs
  · intro hu ops₁
    exact canUnmap_run hp ops₁ hu
  · intro hr
    exact Along.inv (fun _ _ hg hr => hg.step hr) hgeo hr

/-- Two frames of storage. -/
private def twoFrames (_ : Nat) : PacketFrame := ⟨true, 128, 0, 0, 0, .free⟩

/-- A pool that is stopped and closed while the kernel owns a frame, and whose frame is then freed, may be unmapped and
stays so. -/
theorem frame_lifetime_sample : ∃ p₀, init twoFrames 2 1 = .ok p₀ ∧
    ∀ ops, (run step p₀ ([.acquire 0, .transition ⟨0, 1, 1⟩ .rxPosted, .stop, .close, .transition ⟨0, 1, 1⟩ .free] ++
      ops)).canUnmap = true := by
  refine ⟨⟨twoFrames, 2, 1, false, false⟩, rfl, fun ops => ?_⟩
  rw [run_append]
  have hinit : init twoFrames 2 1 = .ok ⟨twoFrames, 2, 1, false, false⟩ := rfl
  exact (frame_lifetime hinit
    [.acquire 0, .transition ⟨0, 1, 1⟩ .rxPosted, .stop, .close, .transition ⟨0, 1, 1⟩ .free]).2.2.2.2.2.1
    (by decide) ops

end PacketFramePool

end Tayga
